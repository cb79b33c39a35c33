import Mathlib.Tactic

/-!
# Opening and closing a device

`rt_device_open` and `rt_device_close` keep a reference count and an open flag
in the device and ask its driver in between.  A run is a list of calls, each
with the answers the driver gives should it be asked.
-/

namespace RtThread.DeviceModel

open Option

def RT_EOK : ℤ := 0
def RT_ERROR : ℤ := 1
def RT_ENOSYS : ℤ := 6
def RT_EBUSY : ℤ := 7

def RT_DEVICE_FLAG_STANDALONE : BitVec 16 := 0x008
def RT_DEVICE_FLAG_ACTIVATED : BitVec 16 := 0x010

def RT_DEVICE_OFLAG_CLOSE : BitVec 16 := 0x000
def RT_DEVICE_OFLAG_OPEN : BitVec 16 := 0x008

/-- `struct rt_device`; of the driver functions only whether they are there. -/
structure RtDevice where
  flag : BitVec 16
  openFlag : BitVec 16
  refCount : BitVec 8
  hasInit : Bool
  hasOpen : Bool
  hasClose : Bool
  deriving DecidableEq

def rtDeviceRegister (dev : RtDevice) (flags : BitVec 16) : RtDevice :=
  { dev with flag := flags, refCount := 0 }

namespace RtDevice

def Activated (dev : RtDevice) : Prop := dev.flag &&& RT_DEVICE_FLAG_ACTIVATED ≠ 0

def Standalone (dev : RtDevice) : Prop := dev.flag &&& RT_DEVICE_FLAG_STANDALONE ≠ 0

def IsOpen (dev : RtDevice) : Prop := dev.openFlag &&& RT_DEVICE_OFLAG_OPEN ≠ 0

instance (dev : RtDevice) : Decidable dev.Activated :=
  inferInstanceAs (Decidable (_ ≠ _))

instance (dev : RtDevice) : Decidable dev.Standalone :=
  inferInstanceAs (Decidable (_ ≠ _))

instance (dev : RtDevice) : Decidable dev.IsOpen :=
  inferInstanceAs (Decidable (_ ≠ _))

end RtDevice

def Accepted (result : ℤ) : Prop := result = RT_EOK ∨ result = -RT_ENOSYS

instance (result : ℤ) : Decidable (Accepted result) :=
  inferInstanceAs (Decidable (_ ∨ _))

/-- `rt_device_open`, with the answers of `dev->init` and `dev->open`; `none` is the failed
assertion on the reference count. -/
def rtDeviceOpen (dev : RtDevice) (oflag : BitVec 16) (initResult openResult : ℤ) :
    Option (RtDevice × ℤ) :=
  if ¬dev.Activated ∧ dev.hasInit ∧ initResult ≠ RT_EOK then some (dev, initResult)
  else
    let dev := if dev.Activated then dev
      else { dev with flag := dev.flag ||| RT_DEVICE_FLAG_ACTIVATED }
    if dev.Standalone ∧ dev.IsOpen then some (dev, -RT_EBUSY)
    else
      let dev := { dev with refCount := dev.refCount + 1 }
      if dev.refCount = 0 then none
      else
        let result := if dev.hasOpen then openResult else RT_EOK
        if Accepted result then
          some ({ dev with openFlag := oflag ||| RT_DEVICE_OFLAG_OPEN }, result)
        else some (dev, result)

def rtDeviceClose (dev : RtDevice) (closeResult : ℤ) : RtDevice × ℤ :=
  if dev.refCount = 0 then (dev, -RT_ERROR)
  else
    let dev := { dev with refCount := dev.refCount - 1 }
    if dev.refCount ≠ 0 then (dev, RT_EOK)
    else
      let result := if dev.hasClose then closeResult else RT_EOK
      if Accepted result then ({ dev with openFlag := RT_DEVICE_OFLAG_CLOSE }, result)
      else (dev, result)

inductive Call
  | openDevice (oflag : BitVec 16) (initResult openResult : ℤ)
  | closeDevice (closeResult : ℤ)

structure Session where
  dev : RtDevice
  opens : ℕ
  closes : ℕ

def Session.start (dev : RtDevice) : Session where
  dev := dev
  opens := 0
  closes := 0

def Session.step (s : Session) : Call → Option (Session × ℤ)
  | .openDevice oflag initResult openResult =>
    (rtDeviceOpen s.dev oflag initResult openResult).map fun (dev, result) =>
      ({ s with dev := dev, opens := s.opens + if Accepted result then 1 else 0 }, result)
  | .closeDevice closeResult =>
    let (dev, result) := rtDeviceClose s.dev closeResult
    some ({ s with dev := dev, closes := s.closes + if s.dev.refCount = 0 then 0 else 1 }, result)

/-- The count is that of the opens less that of the closes, and the open flag tells whether it
is positive. -/
structure Session.InStep (s : Session) : Prop where
  counted : s.dev.refCount.toNat + s.closes = s.opens
  flagged : s.dev.IsOpen ↔ 0 < s.dev.refCount.toNat

def Session.NoTrace (s : Session) (call : Call) (s' : Session) (result : ℤ) : Prop :=
  match call with
  | .openDevice .. => ¬Accepted result →
      s'.dev.refCount = s.dev.refCount ∧ s'.dev.openFlag = s.dev.openFlag
  | .closeDevice _ => True

/-- The count and the flag agree before and after every call of a run, and no failed open of it
leaves a trace. -/
def Session.Kept (s : Session) : List Call → Prop
  | [] => s.InStep
  | call :: calls => s.InStep ∧ ∀ s' result, s.step call = some (s', result) →
      s.NoTrace call s' result ∧ s'.Kept calls

namespace RtDevice

def AsksInit (dev : RtDevice) : Prop := ¬dev.Activated ∧ dev.hasInit

def AsksOpen (dev : RtDevice) (initResult : ℤ) : Prop :=
  (dev.AsksInit → initResult = RT_EOK) ∧ ¬(dev.Standalone ∧ dev.IsOpen) ∧
    dev.refCount + 1 ≠ 0 ∧ dev.hasOpen

def AsksClose (dev : RtDevice) : Prop := dev.refCount = 1 ∧ dev.hasClose

end RtDevice

def Session.DriverAgrees (s : Session) : Call → Prop
  | .openDevice _ initResult openResult =>
    (s.dev.AsksInit → initResult ≠ -RT_ENOSYS) ∧ (s.dev.AsksOpen initResult → Accepted openResult)
  | .closeDevice closeResult => s.dev.AsksClose → Accepted closeResult

def Session.AllAgreed (s : Session) : List Call → Prop
  | [] => True
  | call :: calls => s.DriverAgrees call ∧ ∀ s' result, s.step call = some (s', result) →
      s'.AllAgreed calls

section Calls

variable {dev dev' : RtDevice} {oflag : BitVec 16} {initResult openResult closeResult result : ℤ}

theorem standalone_activated :
    ({ dev with flag := dev.flag ||| RT_DEVICE_FLAG_ACTIVATED } : RtDevice).Standalone ↔
      dev.Standalone := by
  have hbits : (dev.flag ||| RT_DEVICE_FLAG_ACTIVATED) &&& RT_DEVICE_FLAG_STANDALONE =
      dev.flag &&& RT_DEVICE_FLAG_STANDALONE := by
    rw [BitVec.and_or_distrib_right]
    exact BitVec.or_zero
  rw [RtDevice.Standalone, hbits, RtDevice.Standalone]

theorem isOpen_opened (dev : RtDevice) (oflag : BitVec 16) :
    ({ dev with openFlag := oflag ||| RT_DEVICE_OFLAG_OPEN } : RtDevice).IsOpen := by
  intro hclosed
  have hbit := congrArg (fun x : BitVec 16 => x.getLsbD 3) hclosed
  simp [RT_DEVICE_OFLAG_OPEN] at hbit

theorem rtDeviceOpen_cases
    (hopen : rtDeviceOpen dev oflag initResult openResult = some (dev', result)) :
    (dev.AsksInit ∧ initResult ≠ RT_EOK ∧ result = initResult ∧ dev' = dev) ∨
    ((dev.AsksInit → initResult = RT_EOK) ∧ (dev.Standalone ∧ dev.IsOpen) ∧
      result = -RT_EBUSY ∧ dev'.refCount = dev.refCount ∧ dev'.openFlag = dev.openFlag) ∨
    ((dev.AsksInit → initResult = RT_EOK) ∧ ¬(dev.Standalone ∧ dev.IsOpen) ∧
      dev.refCount + 1 ≠ 0 ∧ dev'.refCount = dev.refCount + 1 ∧
      result = (if dev.hasOpen then openResult else RT_EOK) ∧
      dev'.openFlag = if Accepted result then oflag ||| RT_DEVICE_OFLAG_OPEN
        else dev.openFlag) := by
  unfold rtDeviceOpen at hopen
  by_cases hinit : ¬dev.Activated ∧ dev.hasInit ∧ initResult ≠ RT_EOK
  · rw [if_pos hinit] at hopen
    obtain ⟨rfl, rfl⟩ := Prod.mk.inj (some.inj hopen)
    exact .inl ⟨⟨hinit.1, hinit.2.1⟩, hinit.2.2, rfl, rfl⟩
  · rw [if_neg hinit] at hopen
    have hasked : dev.AsksInit → initResult = RT_EOK := by
      intro hasks
      by_contra hne
      exact hinit ⟨hasks.1, hasks.2, hne⟩
    right
    -- Setting the activation flag changes neither the other flags nor the count.
    obtain ⟨active, hactive, hcount, hflag, hstandalone, hdriver⟩ : ∃ active : RtDevice,
        (if dev.Activated then dev
          else { dev with flag := dev.flag ||| RT_DEVICE_FLAG_ACTIVATED }) = active ∧
        active.refCount = dev.refCount ∧ active.openFlag = dev.openFlag ∧
        (active.Standalone ↔ dev.Standalone) ∧ active.hasOpen = dev.hasOpen := by
      split_ifs
      · exact ⟨dev, rfl, rfl, rfl, Iff.rfl, rfl⟩
      · exact ⟨_, rfl, rfl, rfl, standalone_activated, rfl⟩
    have hsame : active.Standalone ∧ active.IsOpen ↔ dev.Standalone ∧ dev.IsOpen := by
      rw [hstandalone, RtDevice.IsOpen, hflag, RtDevice.IsOpen]
    rw [hactive] at hopen
    dsimp only at hopen
    rw [hdriver, hcount] at hopen
    generalize hanswer : (if dev.hasOpen = true then openResult else RT_EOK) = answer at hopen
    split_ifs at hopen with hbusy hwrap haccepted
    · obtain ⟨rfl, rfl⟩ := Prod.mk.inj (some.inj hopen)
      exact .inl ⟨hasked, hsame.mp hbusy, rfl, hcount, hflag⟩
    · obtain ⟨rfl, rfl⟩ := Prod.mk.inj (some.inj hopen)
      exact .inr ⟨hasked, fun h => hbusy (hsame.mpr h), hwrap, rfl, rfl, (if_pos haccepted).symm⟩
    · obtain ⟨rfl, rfl⟩ := Prod.mk.inj (some.inj hopen)
      exact .inr ⟨hasked, fun h => hbusy (hsame.mpr h), hwrap, rfl, rfl,
        hflag.trans (if_neg haccepted).symm⟩

theorem exists_rtDeviceOpen (hwrap : dev.refCount + 1 ≠ 0) :
    ∃ dev' result, rtDeviceOpen dev oflag initResult openResult = some (dev', result) := by
  have hsome : (rtDeviceOpen dev oflag initResult openResult).isSome := by
    unfold rtDeviceOpen
    dsimp only
    split_ifs <;> simp_all
  obtain ⟨⟨dev', result⟩, hopen⟩ := isSome_iff_exists.mp hsome
  exact ⟨dev', result, hopen⟩

/-- What a close does: nothing on a device without references, and otherwise it gives up one of
them, where the last decides on the flag with `dev->close`. -/
theorem rtDeviceClose_cases (hclose : rtDeviceClose dev closeResult = (dev', result)) :
    (dev.refCount = 0 ∧ dev' = dev) ∨ (dev.refCount ≠ 0 ∧ dev'.refCount = dev.refCount - 1 ∧
      (dev.refCount ≠ 1 ∧ dev'.openFlag = dev.openFlag ∨
        dev.refCount = 1 ∧ (dev.AsksClose → Accepted closeResult) ∧
          dev'.openFlag = RT_DEVICE_OFLAG_CLOSE ∨
        dev.refCount = 1 ∧ ¬(dev.AsksClose → Accepted closeResult) ∧
          dev'.openFlag = dev.openFlag)) := by
  unfold rtDeviceClose at hclose
  by_cases hzero : dev.refCount = 0
  · rw [if_pos hzero] at hclose
    exact .inl ⟨hzero, (Prod.mk.inj hclose).1.symm⟩
  · rw [if_neg hzero] at hclose
    have hlast : dev.refCount - 1 = 0 ↔ dev.refCount = 1 := by
      constructor <;> intro h <;> bv_omega
    refine .inr ⟨hzero, ?_⟩
    by_cases hone : dev.refCount = 1
    · rw [if_neg (not_not.mpr (hlast.mpr hone))] at hclose
      have hanswer : Accepted (if dev.hasClose then closeResult else RT_EOK) ↔
          (dev.AsksClose → Accepted closeResult) := by
        unfold RtDevice.AsksClose
        split_ifs with hdriver
        · simp [hone, hdriver]
        · simp [hdriver, Accepted]
      by_cases haccepted : Accepted (if dev.hasClose then closeResult else RT_EOK)
      · rw [if_pos haccepted] at hclose
        obtain ⟨rfl, -⟩ := Prod.mk.inj hclose
        exact ⟨rfl, .inr (.inl ⟨hone, hanswer.mp haccepted, rfl⟩)⟩
      · rw [if_neg haccepted] at hclose
        obtain ⟨rfl, -⟩ := Prod.mk.inj hclose
        exact ⟨rfl, .inr (.inr ⟨hone, fun h => haccepted (hanswer.mpr h), rfl⟩)⟩
    · rw [if_pos (fun h => hone (hlast.mp h))] at hclose
      obtain ⟨rfl, -⟩ := Prod.mk.inj hclose
      exact ⟨rfl, .inl ⟨hone, rfl⟩⟩

end Calls

namespace Session

variable {s s' : Session} {oflag : BitVec 16} {initResult openResult closeResult result : ℤ}

theorem step_openDevice {dev' : RtDevice}
    (hopen : rtDeviceOpen s.dev oflag initResult openResult = some (dev', result)) :
    s.step (.openDevice oflag initResult openResult) =
      some (⟨dev', s.opens + if Accepted result then 1 else 0, s.closes⟩, result) := by
  simp only [step, hopen, map_some]

/-- An open that fails leaves no trace exactly when the driver agrees. -/
theorem openDevice_iff (hin : s.InStep) : s.DriverAgrees (.openDevice oflag initResult openResult) ↔
      ∀ s' result, s.step (.openDevice oflag initResult openResult) = some (s', result) →
        s.NoTrace (.openDevice oflag initResult openResult) s' result ∧ s'.InStep := by
  constructor
  · rintro ⟨hinit, hopen⟩ s' result hstep
    obtain ⟨⟨dev', answer⟩, hcall, heq⟩ := map_eq_some_iff.mp hstep
    obtain ⟨rfl, rfl⟩ := Prod.mk.inj heq
    rcases rtDeviceOpen_cases hcall with ⟨hasks, hne, rfl, rfl⟩ |
      ⟨-, hbusy, rfl, hcount, hflag⟩ | ⟨hasked, hfree, hwrap, hcount, hanswer, hflag⟩
    · have hrefused : ¬Accepted answer := not_or.mpr ⟨hne, hinit hasks⟩
      refine ⟨fun _ => ⟨rfl, rfl⟩, ?_, hin.flagged⟩
      simpa only [if_neg hrefused, Nat.add_zero] using hin.counted
    · have hrefused : ¬Accepted (-RT_EBUSY) := by decide
      refine ⟨fun _ => ⟨hcount, hflag⟩, ?_, ?_⟩
      · simpa only [if_neg hrefused, Nat.add_zero, hcount] using hin.counted
      · simpa only [RtDevice.IsOpen, hflag, hcount] using hin.flagged
    · have haccepted : Accepted answer := by
        rw [hanswer]
        split_ifs with hdriver
        · exact hopen ⟨hasked, hfree, hwrap, hdriver⟩
        · exact .inl rfl
      have hsum : (s.dev.refCount + 1).toNat = s.dev.refCount.toNat + 1 := by bv_omega
      have hcounted := hin.counted
      rw [if_pos haccepted] at hflag
      refine ⟨fun hrefused => absurd haccepted hrefused, ?_, ?_⟩
      · change dev'.refCount.toNat + s.closes = s.opens + if Accepted answer then 1 else 0
        rw [if_pos haccepted, hcount]
        lia
      · change dev'.IsOpen ↔ 0 < dev'.refCount.toNat
        have hset := isOpen_opened dev' oflag
        rw [← hflag] at hset
        rw [hcount]
        exact iff_of_true hset (by lia)
  · intro h
    refine ⟨?_, ?_⟩
    · rintro hasks rfl
      have hcall : rtDeviceOpen s.dev oflag (-RT_ENOSYS) openResult = some (s.dev, -RT_ENOSYS) :=
        if_pos ⟨hasks.1, hasks.2, by decide⟩
      have hcounted := (h _ _ (step_openDevice hcall)).2.counted
      have hbefore := hin.counted
      rw [if_pos (.inr rfl)] at hcounted
      lia
    · intro hasks
      by_contra hrefused
      obtain ⟨dev', answer, hcall⟩ := @exists_rtDeviceOpen s.dev oflag initResult openResult hasks.2.2.1
      have htrace := (h _ _ (step_openDevice hcall)).1
      rcases rtDeviceOpen_cases hcall with ⟨hinit, hne, -, -⟩ | ⟨-, hbusy, -, -, -⟩ |
        ⟨-, -, -, hcount, hanswer, -⟩
      · exact hne (hasks.1 hinit)
      · exact hasks.2.1 hbusy
      · rw [if_pos hasks.2.2.2] at hanswer
        have hsame := (htrace (hanswer ▸ hrefused)).1
        change dev'.refCount = s.dev.refCount at hsame
        rw [hcount] at hsame
        bv_omega

theorem isOpen_closed {dev : RtDevice} (hflag : dev.openFlag = RT_DEVICE_OFLAG_CLOSE) :
    ¬dev.IsOpen := by
  rw [RtDevice.IsOpen, hflag]
  decide

theorem closeDevice_iff (hin : s.InStep) : s.DriverAgrees (.closeDevice closeResult) ↔
      ∀ s' result, s.step (.closeDevice closeResult) = some (s', result) →
        s.NoTrace (.closeDevice closeResult) s' result ∧ s'.InStep := by
  obtain ⟨⟨dev', answer⟩, hcall⟩ : ∃ pair, rtDeviceClose s.dev closeResult = pair := ⟨_, rfl⟩
  have hstep : s.step (.closeDevice closeResult) =
      some (⟨dev', s.opens, s.closes + if s.dev.refCount = 0 then 0 else 1⟩, answer) := by
    simp only [step, hcall]
  simp only [hstep, some.injEq, Prod.mk.injEq, and_imp]
  have hcounted := hin.counted
  have hflagged := hin.flagged
  rcases rtDeviceClose_cases hcall with ⟨hzero, rfl⟩ | ⟨hpos, hcount, hlast⟩
  · refine iff_of_true (fun hasks => ?_) ?_
    · nomatch hzero.symm.trans hasks.1
    · rintro s' result rfl -
      refine ⟨trivial, ?_, hflagged⟩
      simpa only [if_pos hzero, Nat.add_zero] using hcounted
  · have hsum : (s.dev.refCount - 1).toNat + 1 = s.dev.refCount.toNat := by bv_omega
    have hafter : dev'.refCount.toNat + (s.closes + 1) = s.opens := by
      rw [hcount]
      lia
    rw [if_neg hpos]
    have hkeep : (dev'.IsOpen ↔ 0 < dev'.refCount.toNat) ↔
        ∀ s' result, (⟨dev', s.opens, s.closes + 1⟩ : Session) = s' → answer = result →
          s.NoTrace (.closeDevice closeResult) s' result ∧ s'.InStep := by
      constructor
      · rintro hflag s' result rfl -
        exact ⟨trivial, hafter, hflag⟩
      · intro h
        exact (h _ _ rfl rfl).2.flagged
    rw [← hkeep, hcount]
    rcases hlast with ⟨hmore, hflag⟩ | ⟨hone, hagrees, hflag⟩ | ⟨hone, hrefused, hflag⟩
    · have hopened : s.dev.IsOpen := hflagged.mpr (by lia)
      have hleft : 0 < (s.dev.refCount - 1).toNat := by bv_omega
      rw [RtDevice.IsOpen, hflag]
      exact iff_of_true (fun hasks => absurd hasks.1 hmore) (iff_of_true hopened hleft)
    · have hnone : ¬0 < (s.dev.refCount - 1).toNat := by
        rw [hone]
        decide
      exact iff_of_true hagrees (iff_of_false (isOpen_closed hflag) hnone)
    · have hopened : s.dev.IsOpen := hflagged.mpr (by lia)
      have hnone : ¬0 < (s.dev.refCount - 1).toNat := by
        rw [hone]
        decide
      rw [RtDevice.IsOpen, hflag]
      exact iff_of_false hrefused (fun h => hnone (h.mp hopened))

theorem driverAgrees_iff (hin : s.InStep) (call : Call) : s.DriverAgrees call ↔
      ∀ s' result, s.step call = some (s', result) → s.NoTrace call s' result ∧ s'.InStep := by
  cases call with
  | openDevice => exact openDevice_iff hin
  | closeDevice => exact closeDevice_iff hin

theorem Kept.inStep {calls : List Call} (hkept : s.Kept calls) : s.InStep := by
  cases calls with
  | nil => exact hkept
  | cons call calls => exact hkept.1

/-- A run keeps counts and flags exactly when the driver agrees to all of it. -/
theorem kept_iff (hin : s.InStep) (calls : List Call) : s.Kept calls ↔ s.AllAgreed calls := by
  induction calls generalizing s with
  | nil => exact iff_of_true hin trivial
  | cons call calls ih =>
    rw [Kept, AllAgreed, driverAgrees_iff hin]
    constructor
    · rintro ⟨-, h⟩
      refine ⟨fun s' result hstep => ?_, fun s' result hstep => ?_⟩
      · obtain ⟨htrace, hkept⟩ := h s' result hstep
        exact ⟨htrace, hkept.inStep⟩
      · have hkept := (h s' result hstep).2
        exact (ih hkept.inStep).mp hkept
    · rintro ⟨hgood, h⟩
      refine ⟨hin, fun s' result hstep => ?_⟩
      obtain ⟨htrace, hin'⟩ := hgood s' result hstep
      exact ⟨htrace, (ih hin').mpr (h s' result hstep)⟩

theorem start_inStep_iff (dev : RtDevice) (flags : BitVec 16) :
    (start (rtDeviceRegister dev flags)).InStep ↔ ¬dev.IsOpen := by
  constructor
  · intro hin hopen
    exact Nat.lt_irrefl 0 (hin.flagged.mp hopen)
  · intro hclosed
    exact ⟨rfl, iff_of_false hclosed (Nat.lt_irrefl 0)⟩

/-- The count and the flag of a registered device agree throughout a run, and its failed opens
leave no trace, exactly when the device was not marked open at its registration and its driver
agrees to every call. -/
theorem kept_registered_iff (dev : RtDevice) (flags : BitVec 16) (calls : List Call) :
    (start (rtDeviceRegister dev flags)).Kept calls ↔
      ¬dev.IsOpen ∧ (start (rtDeviceRegister dev flags)).AllAgreed calls := by
  rw [← start_inStep_iff dev flags]
  constructor
  · intro hkept
    exact ⟨hkept.inStep, (kept_iff hkept.inStep calls).mp hkept⟩
  · rintro ⟨hin, hagreed⟩
    exact (kept_iff hin calls).mpr hagreed

/-- The driver refuses to open, and the device counts the call. -/
theorem refused_open_counted :
    ¬∀ (dev : RtDevice) (flags : BitVec 16) (calls : List Call), ¬dev.IsOpen →
      (start (rtDeviceRegister dev flags)).Kept calls := by
  intro h
  have hkept := h ⟨0, 0, 0, false, true, false⟩ 3 [.openDevice 3 0 (-8)] (by decide)
  have hafter := (hkept.2 ⟨⟨19, 0, 1, false, true, false⟩, 0, 0⟩ (-8) rfl).1
  exact absurd (hafter (by decide)).1 (by decide)

end Session

end RtThread.DeviceModel
