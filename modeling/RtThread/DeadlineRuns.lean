import RtThread.MailboxRuns
import RtThread.MessageQueueRuns
import RtThread.WaitDeadlines

/-!
# Deadlines on mailboxes and message queues

The calls of both objects follow the discipline of `Waits`, also when other parts of
the system resume their threads.
-/

namespace RtThread

open Option
namespace Ipc

open Word

section Core

variable {κ : Type} {s s' s'' : Core κ} {t u : Thread}

def Calmer (s s' : Core κ) : Prop :=
  ∀ t, (s'.threads t).timerActive = true →
    (s.threads t).timerActive = true ∧ (s'.threads t).stat = (s.threads t).stat

theorem Calmer.refl (s : Core κ) : Calmer s s := fun _ hactive => ⟨hactive, rfl⟩

theorem Calmer.trans (hfirst : Calmer s s') (hsecond : Calmer s' s'') : Calmer s s'' := by
  intro t hactive
  rcases hsecond t hactive with ⟨hactive', hstat'⟩
  rcases hfirst t hactive' with ⟨hactive'', hstat''⟩
  exact ⟨hactive'', hstat'.trans hstat''⟩

theorem Calmer.of_thread (hother : ∀ u, u ≠ t → s'.threads u = s.threads u)
    (hself : (s'.threads t).timerActive = true →
      (s.threads t).timerActive = true ∧ (s'.threads t).stat = (s.threads t).stat) :
    Calmer s s' := by
  intro u hactive
  by_cases hut : u = t
  · rw [hut] at hactive ⊢
    exact hself hactive
  · rw [hother u hut] at hactive ⊢
    exact ⟨hactive, rfl⟩

theorem calmer_setError (s : Core κ) (t : Thread) (code : ErrorCode) :
    Calmer s (setError s t code) := by
  apply Calmer.of_thread (t := t)
  · intro u hut
    simp [setError, Core.setThread, hut]
  · intro hactive
    simpa [setError, Core.setThread] using hactive

theorem calmer_makeReady (s : Core κ) (t : Thread) : Calmer s (makeReady s t) := by
  apply Calmer.of_thread (t := t)
  · intro u hut
    simp [makeReady, Core.setThread, hut]
  · intro hactive
    simp [makeReady, Core.setThread] at hactive

theorem calmer_rtThreadResume (s : Core κ) (t : Thread) : Calmer s (rtThreadResume s t) := by
  unfold rtThreadResume
  split_ifs
  · exact Calmer.refl s
  · exact calmer_makeReady s t

theorem calmer_rtThreadTimeout (s : Core κ) (t : Thread) : Calmer s (rtThreadTimeout s t) :=
  (calmer_setError s t .etimeout).trans (calmer_makeReady _ t)

theorem calmer_rtIpcListResume (k : κ) (s : Core κ) : Calmer s (rtIpcListResume k s) := by
  unfold rtIpcListResume
  split
  · exact Calmer.refl s
  · exact calmer_rtThreadResume s _

theorem calmer_rtIpcListResumeAll
    {k : κ} {fuel : ℕ} (hresume : rtIpcListResumeAll k fuel s = some s') : Calmer s s' := by
  induction fuel generalizing s with
  | zero =>
    unfold rtIpcListResumeAll at hresume
    split_ifs at hresume
    rw [← some.inj hresume]
    exact Calmer.refl s
  | succ fuel ih =>
    unfold rtIpcListResumeAll at hresume
    split at hresume
    · rw [← some.inj hresume]
      exact Calmer.refl s
    · next t _ _ =>
        exact ((calmer_setError s t .error).trans (calmer_rtThreadResume _ t)).trans (ih hresume)

theorem asleep_forever [DecidableEq κ] {time : ℤ} (k : κ) (flag : IpcFlag)
    (hready : (s.threads t).stat = .ready) (htime : ¬0 < time) :
    ((asleep s k flag t time).threads t).timerActive = (s.threads t).timerActive := by
  have hsuspend : rtThreadSuspend s t = s.setThread t { s.threads t with stat := .suspend } := by
    unfold rtThreadSuspend
    rw [if_neg (by simp [hready])]
  simp [asleep, startTimer, rtIpcListSuspend, hsuspend, htime, Core.setThread, Core.setWait]

theorem asleep_calmer [DecidableEq κ] {time : ℤ} (k : κ) (flag : IpcFlag)
    (hready : (s.threads t).stat = .ready) (htime : u = t → ¬0 < time)
    (hactive : ((asleep (setError s t .eok) k flag t time).threads u).timerActive = true) :
    (s.threads u).timerActive = true ∧
      (((asleep (setError s t .eok) k flag t time).threads u).stat = .suspend ∨
        ((asleep (setError s t .eok) k flag t time).threads u).stat = (s.threads u).stat) := by
  have hready' : ((setError s t .eok).threads t).stat = .ready := by
    rw [setError_stat]
    exact hready
  rcases asleep_threads k flag time hready' with ⟨hsuspend, -, -, hother⟩
  have hcalmer := calmer_setError s t .eok
  by_cases hut : u = t
  · rw [hut] at hactive ⊢
    have hsame := asleep_forever k flag hready' (htime hut)
    exact ⟨(hcalmer t (hsame.symm.trans hactive)).1, .inl hsuspend⟩
  · have hsame := hother u hut
    rw [hsame] at hactive ⊢
    rcases hcalmer u hactive with ⟨hactive', hstat⟩
    exact ⟨hactive', .inr hstat⟩

end Core

inductive Disturbed (ι : Type) where
  | act (action : ι)
  | wake (t : Thread)

def FitsInt32 (timeout : ℤ) : Prop := -2147483648 ≤ timeout ∧ timeout < 2147483648

end Ipc

namespace Mailbox

open Function Ipc Word

variable {c : MailboxConfig} {s s' : MailboxState} {t u : Thread} {f : Frame} {timeout : ℤ}

def Unavailable (c : MailboxConfig) (s : MailboxState) : Call → Prop
  | .send _ => s.entry = c.size
  | .recv => s.entry = 0

instance (c : MailboxConfig) (s : MailboxState) (call : Call) : Decidable (Unavailable c s call) :=
  match call with
  | .send _ => inferInstanceAs (Decidable (_ = _))
  | .recv => inferInstanceAs (Decidable (_ = _))

def Call.waitList : Call → WaitList
  | .send _ => .suspendSenderThread
  | .recv => .suspendThread

def loopStarts (c : MailboxConfig) (s : MailboxState) (t : Thread) (f : Frame) :
    Option (Thread × ℤ) :=
  if Unavailable c s f.call ∧ 0 < f.timeout then some (t, f.timeout) else none

def starts (c : MailboxConfig) (s : MailboxState) : Action → Option (Thread × ℤ)
  | .send t value => loopStarts c s t ⟨.send value, 0, 0, [], []⟩
  | .sendWait t value time => loopStarts c s t ⟨.send value, time, 0, [], []⟩
  | .recv t time => loopStarts c s t ⟨.recv, time, 0, [], []⟩
  | .resumed t =>
    match s.frame t with
    | none => none
    | some f =>
      if (s.core.threads t).error ≠ .eok then none
      else loopStarts c s t { f with timeout := remaining f.timeout f.tickDelta s.tick }
  | .timeout _ => none
  | .tick => none

def Action.FitsInt32 : Action → Prop
  | .sendWait _ _ time => Ipc.FitsInt32 time
  | .recv _ time => Ipc.FitsInt32 time
  | _ => True

def Refused (s s' : MailboxState) (t : Thread) : Prop :=
  ∃ f code, s.frame t = some f ∧ code ≠ .eok ∧
    s'.returns = s.returns ++ [⟨f.call, code, none, f.stored, f.removed⟩] ∧
    s'.frame t = none ∧ (s'.core.threads t).stat = .ready

def locals (s : MailboxState) (t : Thread) : Option (ℤ × ℕ) :=
  (s.frame t).map fun f => (f.timeout, f.tickDelta)

def mailboxWaits (c : MailboxConfig) : Waits MailboxState (Disturbed Action) where
  system := {
    init := (mailboxSystem c).init
    step := fun s action s' =>
      match action with
      | .act action => (mailboxSystem c).step s action s'
      | .wake t => s' = { s with core := rtThreadResume s.core t } }
  tick := MailboxState.tick
  block := fun s => s.core.threads
  locals := locals
  starts := fun s action =>
    match action with
    | .act action => starts c s action
    | .wake _ => none
  resume := fun t => .act (.resumed t)
  unavailable := fun s t => ∃ f, s.frame t = some f ∧ Unavailable c s f.call
  refused := Refused

theorem loop_waits (hunavailable : Unavailable c s f.call) (htime : f.timeout ≠ 0) : loop c s t f =
      suspendOn c { s with core := setError s.core t .eok } f.call.waitList t f := by
  unfold loop
  cases hcall : f.call with
  | send value =>
    rw [hcall] at hunavailable
    have hfull : s.entry = c.size := hunavailable
    simp only [sendLoop, if_pos hfull, if_neg htime, Call.waitList]
  | recv =>
    rw [hcall] at hunavailable
    have hempty : s.entry = 0 := hunavailable
    simp only [recvLoop, if_pos hempty, if_neg htime, Call.waitList]

theorem loop_returns (hreturns : ¬Unavailable c s f.call ∨ f.timeout = 0) :
    (loop c s t f).frame = s.frame ∧ (loop c s t f).tick = s.tick ∧
      Calmer s.core (loop c s t f).core := by
  unfold loop
  cases hcall : f.call with
  | send value =>
    rw [hcall] at hreturns
    by_cases hfull : s.entry = c.size
    · have htime : f.timeout = 0 := hreturns.resolve_left (not_not_intro hfull)
      simp only [sendLoop, if_pos hfull, if_pos htime]
      exact ⟨rfl, rfl, calmer_setError s.core t .eok⟩
    · simp only [sendLoop, if_neg hfull]
      exact ⟨rfl, rfl, calmer_rtIpcListResume _ s.core⟩
  | recv =>
    rw [hcall] at hreturns
    by_cases hempty : s.entry = 0
    · have htime : f.timeout = 0 := hreturns.resolve_left (not_not_intro hempty)
      simp only [recvLoop, if_pos hempty, if_pos htime]
      exact ⟨rfl, rfl, (calmer_setError s.core t .eok).trans (calmer_setError _ t _)⟩
    · simp only [recvLoop, if_neg hempty]
      exact ⟨rfl, rfl, calmer_rtIpcListResume _ s.core⟩

theorem passes_of_calmer (hframe : s'.frame u = s.frame u ∨ s'.frame u = none)
    (hcalmer : Calmer s.core s'.core) : (mailboxWaits c).Passes s s' u := by
  constructor
  · intro r d hlocals _
    rcases hframe with hframe | hframe
    · simpa [mailboxWaits, locals, hframe] using hlocals
    · simp [mailboxWaits, locals, hframe] at hlocals
  · intro hactive
    rcases hcalmer u hactive with ⟨hactive', hstat⟩
    exact ⟨hactive', .inr hstat⟩

theorem loop_passes (hready : f.timeout ≠ 0 → (s.core.threads t).stat = .ready)
    (hnone : (loopStarts c s t f).map Prod.fst ≠ some u) :
    (mailboxWaits c).Passes s (loop c s t f) u := by
  by_cases hreturns : ¬Unavailable c s f.call ∨ f.timeout = 0
  · rcases loop_returns (c := c) (s := s) (t := t) (f := f) hreturns with ⟨hframe, -, hcalmer⟩
    exact passes_of_calmer (.inl (by rw [hframe])) hcalmer
  · rw [not_or, not_not] at hreturns
    rcases hreturns with ⟨hunavailable, htime⟩
    have hforever : u = t → ¬0 < f.timeout := by
      intro hut hpos
      rw [loopStarts, if_pos ⟨hunavailable, hpos⟩, hut] at hnone
      exact hnone rfl
    rw [loop_waits hunavailable htime]
    constructor
    · intro r d hlocals hr
      by_cases hut : u = t
      · rw [hut] at hlocals
        simp only [mailboxWaits, locals, suspendOn, update_self, map_some,
          some.injEq, Prod.mk.injEq] at hlocals
        exact absurd (hlocals.1 ▸ hr) (hforever hut)
      · simpa [mailboxWaits, locals, suspendOn, update_of_ne hut] using hlocals
    · exact asleep_calmer f.call.waitList c.flag (hready htime) hforever

theorem loop_starts (hready : (s.core.threads t).stat = .ready)
    (hsome : loopStarts c s t f = some (u, timeout)) : u = t ∧ 0 < timeout ∧ timeout = f.timeout ∧
      locals (loop c s t f) t = some (timeout, s.tick) ∧
      ((loop c s t f).core.threads t).stat = .suspend := by
  unfold loopStarts at hsome
  split_ifs at hsome with hwaits
  rw [some.injEq, Prod.mk.injEq] at hsome
  rcases hsome with ⟨rfl, rfl⟩
  have hready' : ((setError s.core t .eok).threads t).stat = .ready := by
    rw [setError_stat]
    exact hready
  rcases asleep_threads f.call.waitList c.flag f.timeout hready' with ⟨hsuspend, -⟩
  rw [loop_waits hwaits.1 (by omega)]
  refine ⟨rfl, hwaits.2, rfl, ?_, hsuspend⟩
  simp [locals, suspendOn, hwaits.2]

theorem rtMbSendWait_passes {value : UInt32}
    (hready : timeout ≠ 0 → (s.core.threads t).stat = .ready)
    (hnone : (loopStarts c s t ⟨.send value, timeout, 0, [], []⟩).map Prod.fst ≠ some u) :
    (mailboxWaits c).Passes s (rtMbSendWait c s t value timeout) u := by
  unfold rtMbSendWait
  split_ifs
  · exact passes_of_calmer (.inl rfl) (Calmer.refl s.core)
  · exact loop_passes hready hnone

theorem rtMbRecv_passes (hready : timeout ≠ 0 → (s.core.threads t).stat = .ready)
    (hnone : (loopStarts c s t ⟨.recv, timeout, 0, [], []⟩).map Prod.fst ≠ some u) :
    (mailboxWaits c).Passes s (rtMbRecv c s t timeout) u := by
  unfold rtMbRecv
  split_ifs
  · exact passes_of_calmer (.inl rfl) (Calmer.refl s.core)
  · exact loop_passes hready hnone

theorem Passes.of_cleared (hpasses : (mailboxWaits c).Passes
      { s with frame := update s.frame t none } s' u) :
    (mailboxWaits c).Passes s s' u := by
  constructor
  · intro r d hlocals hr
    have hcleared := hpasses.locals r d hlocals hr
    by_cases hut : u = t
    · simp [mailboxWaits, locals, hut] at hcleared
    · simpa [mailboxWaits, locals, update_of_ne hut] using hcleared
  · exact hpasses.timer

theorem resumed_passes (hframe : s.frame t = some f) (hready : (s.core.threads t).stat = .ready)
    (hnone : (starts c s (.resumed t)).map Prod.fst ≠ some u) :
    (mailboxWaits c).Passes s (resumed c s t f) u := by
  simp only [starts, hframe] at hnone
  unfold resumed
  simp only
  apply Passes.of_cleared
  split_ifs at hnone ⊢ with hcode
  · exact passes_of_calmer (.inl rfl) (Calmer.refl s.core)
  · exact loop_passes (fun _ => hready) hnone

theorem loop_tick (c : MailboxConfig) (s : MailboxState) (t : Thread) (f : Frame) :
    (loop c s t f).tick = s.tick := by
  by_cases hreturns : ¬Unavailable c s f.call ∨ f.timeout = 0
  · exact (loop_returns hreturns).2.1
  · rw [not_or, not_not] at hreturns
    rw [loop_waits hreturns.1 hreturns.2]
    rfl

theorem execute_tick (c : MailboxConfig) (s : MailboxState) (action : Action) :
    (execute c s action).tick = s.tick ∨ (execute c s action).tick = add32 s.tick 1 := by
  cases action with
  | send t value =>
    simp only [execute, rtMbSend, rtMbSendWait]
    split_ifs
    · exact .inl rfl
    · exact .inl (loop_tick c s t _)
  | sendWait t value time =>
    simp only [execute, rtMbSendWait]
    split_ifs
    · exact .inl rfl
    · exact .inl (loop_tick c s t _)
  | recv t time =>
    simp only [execute, rtMbRecv]
    split_ifs
    · exact .inl rfl
    · exact .inl (loop_tick c s t _)
  | resumed t =>
    cases hframe : s.frame t with
    | none =>
      left
      simp only [execute, hframe]
    | some f =>
      simp only [execute, hframe, resumed]
      split_ifs
      · exact .inl rfl
      · exact .inl (loop_tick c _ t _)
  | timeout t => exact .inl rfl
  | tick => exact .inr rfl

theorem call_starts (hready : (s.core.threads t).stat = .ready) (hframe : (s.frame t).isNone)
    (hfits : FitsInt32 f.timeout) (hsome : loopStarts c s t f = some (u, timeout)) :
    (mailboxWaits c).Starts s (loop c s t f) u timeout := by
  rcases loop_starts hready hsome with ⟨rfl, hpos, heq, hlocals, hsuspend⟩
  have hnone : locals s u = none := by
    simp [locals, isNone_iff_eq_none.mp hframe]
  constructor
  · exact hpos
  · exact hready
  · exact hsuspend
  · exact hlocals
  · simp only [mailboxWaits, hnone]
    rw [heq]
    exact hfits.2

theorem resumed_starts (hframe : s.frame t = some f) (hready : (s.core.threads t).stat = .ready)
    (hsome : starts c s (.resumed t) = some (u, timeout)) :
    (mailboxWaits c).Starts s (resumed c s t f) u timeout := by
  simp only [starts, hframe] at hsome
  unfold resumed
  simp only
  split_ifs at hsome ⊢ with hcode
  rcases loop_starts (s := { s with frame := update s.frame t none }) hready hsome
    with ⟨rfl, hpos, heq, hlocals, hsuspend⟩
  have hsome : locals s u = some (f.timeout, f.tickDelta) := by
    simp [locals, hframe]
  constructor
  · exact hpos
  · exact hready
  · exact hsuspend
  · exact hlocals
  · simp only [mailboxWaits, hsome]
    exact heq

theorem resumed_refuses (hframe : s.frame t = some f) (hready : (s.core.threads t).stat = .ready)
    (hunavailable : Unavailable c s f.call) (hzero : remaining f.timeout f.tickDelta s.tick = 0) :
    Refused s (resumed c s t f) t := by
  unfold resumed
  simp only [hzero]
  split_ifs with hcode
  · exact ⟨f, _, hframe, ReturnCode.ofError_ne_eok hcode, rfl, update_self t _ _, hready⟩
  · unfold loop
    cases hcall : f.call with
    | send value =>
      rw [hcall] at hunavailable
      have hfull : s.entry = c.size := hunavailable
      simp only [sendLoop, if_pos hfull, if_true]
      refine ⟨f, .efull, hframe, ReturnCode.noConfusion, by rw [hcall]; rfl,
        update_self t _ _, ?_⟩
      exact (setError_stat s.core t t .eok).trans hready
    | recv =>
      rw [hcall] at hunavailable
      have hempty : s.entry = 0 := hunavailable
      simp only [recvLoop, if_pos hempty, if_true]
      refine ⟨f, .etimeout, hframe, ReturnCode.noConfusion, by rw [hcall]; rfl,
        update_self t _ _, ?_⟩
      exact (setError_stat _ t t .etimeout).trans ((setError_stat s.core t t .eok).trans hready)

def Fits : Disturbed Action → Prop
  | .act action => action.FitsInt32
  | .wake _ => True

theorem mailboxWaits_disciplined (c : MailboxConfig) :
    (mailboxWaits c).Disciplined fun _ action => Fits action := by
  constructor
  · intro s hinit t
    have hthread := hinit.2.1 t
    exact ⟨by simp [mailboxWaits, locals, hthread.2.2], hthread.2.1⟩
  · intro s action s' hstep htick
    cases action with
    | wake t =>
      rw [show s' = _ from hstep]
      exact htick
    | act action =>
      rcases hstep with ⟨-, rfl⟩
      rcases execute_tick c s action with hsame | hnext
      · exact hsame.trans_lt htick
      · exact hnext.trans_lt (add32_lt _ _)
  · intro s action s' hguard hstep u hnone
    cases action with
    | wake t =>
      rw [show s' = _ from hstep]
      exact passes_of_calmer (.inl rfl) (calmer_rtThreadResume s.core t)
    | act action =>
      rcases hstep with ⟨henabled, rfl⟩
      cases action with
      | send t value => exact rtMbSendWait_passes (fun hne => absurd rfl hne) hnone
      | sendWait t value time =>
        exact rtMbSendWait_passes (fun hne => (henabled.resolve_left hne).1) hnone
      | recv t time =>
        exact rtMbRecv_passes (fun hne => (henabled.resolve_left hne).1) hnone
      | resumed t =>
        cases hframe : s.frame t with
        | none =>
          simp only [execute, hframe]
          exact passes_of_calmer (.inl rfl) (Calmer.refl s.core)
        | some f =>
          simp only [execute, hframe]
          exact resumed_passes hframe henabled.1 hnone
      | timeout t => exact passes_of_calmer (.inl rfl) (calmer_rtThreadTimeout s.core t)
      | tick => exact passes_of_calmer (.inl rfl) (Calmer.refl s.core)
  · intro s action s' hguard hstep u timeout hsome
    cases action with
    | wake t => exact absurd hsome (by simp [mailboxWaits])
    | act action =>
      rcases hstep with ⟨henabled, rfl⟩
      cases action with
      | send t value =>
        exact absurd hsome (by simp [mailboxWaits, starts, loopStarts])
      | sendWait t value time =>
        have hne : time ≠ 0 := by
          intro hzero
          exact absurd hsome (by simp [mailboxWaits, starts, loopStarts, hzero])
        rcases henabled.resolve_left hne with ⟨hready, hframe⟩
        simp only [execute, rtMbSendWait, hne, and_false, if_false]
        exact call_starts hready hframe hguard hsome
      | recv t time =>
        have hne : time ≠ 0 := by
          intro hzero
          exact absurd hsome (by simp [mailboxWaits, starts, loopStarts, hzero])
        rcases henabled.resolve_left hne with ⟨hready, hframe⟩
        simp only [execute, rtMbRecv, hne, and_false, if_false]
        exact call_starts hready hframe hguard hsome
      | resumed t =>
        cases hframe : s.frame t with
        | none => exact absurd hsome (by simp [mailboxWaits, starts, hframe])
        | some f =>
          simp only [execute, hframe]
          exact resumed_starts hframe henabled.1 hsome
      | timeout t | tick => exact absurd hsome (by simp [mailboxWaits, starts])
  · intro s s' t r d hlocals hr hzero hunavailable hstep
    rcases hunavailable with ⟨f, hframe, hunavailable⟩
    rcases hstep with ⟨henabled, rfl⟩
    simp only [mailboxWaits, locals, hframe, map_some, some.injEq,
      Prod.mk.injEq] at hlocals
    rcases hlocals with ⟨rfl, rfl⟩
    simp only [execute, hframe]
    exact resumed_refuses hframe henabled.1 hunavailable hzero

end Mailbox

namespace MessageQueue

open Function Ipc Word

variable {a : AlignSize} {area : MqArea a} {s s' : MqState} {t u : Thread} {f : Frame}
variable {flag : IpcFlag} {timeout : ℤ}

def loopStarts (s : MqState) (t : Thread) (f : Frame) : Option (Thread × ℤ) :=
  if s.entry = 0 ∧ 0 < f.timeout then some (t, f.timeout) else none

def starts (s : MqState) : Action → Option (Thread × ℤ)
  | .recv t size time => loopStarts s t ⟨size, time, 0⟩
  | .resumed t =>
    match s.frame t with
    | none => none
    | some f =>
      if (s.core.threads t).error ≠ .eok then none
      else loopStarts s t { f with timeout := remaining f.timeout f.tickDelta s.tick }
  | _ => none

def Refused (s s' : MqState) (t : Thread) : Prop :=
  ∃ f code, s.frame t = some f ∧ code ≠ .eok ∧ s'.returns = .recv code f.size [] 0 :: s.returns ∧
    s'.frame t = none ∧ (s'.core.threads t).stat = .ready

def locals (s : MqState) (t : Thread) : Option (ℤ × ℕ) :=
  (s.frame t).map fun f => (f.timeout, f.tickDelta)

def queueWaits (area : MqArea a) : Waits MqState (Disturbed Action) where
  system := {
    init := (mqSystem area).init
    step := fun s action s' =>
      match action with
      | .act action => (mqSystem area).step s action s'
      | .wake t => s' = { s with core := rtThreadResume s.core t } }
  tick := MqState.tick
  block := fun s => s.core.threads
  locals := locals
  starts := fun s action =>
    match action with
    | .act action => starts s action
    | .wake _ => none
  resume := fun t => .act (.resumed t)
  unavailable := fun s t => (s.frame t).isSome ∧ s.entry = 0
  refused := Refused

def Fits : Disturbed Action → Prop
  | .act (.recv _ _ time) => FitsInt32 time
  | _ => True

theorem loop_waits (hempty : s.entry = 0) (htime : f.timeout ≠ 0) : recvLoop flag s t f =
      { s with
        core := asleep (setError s.core t .eok) () flag t f.timeout
        frame := update s.frame t
          (some { f with tickDelta := if 0 < f.timeout then s.tick else f.tickDelta }) } := by
  simp only [recvLoop, if_pos hempty, if_neg htime]
  rfl

theorem loop_returns (flag : IpcFlag) (t : Thread) (hreturns : s.entry ≠ 0 ∨ f.timeout = 0) :
    (recvLoop flag s t f).frame = s.frame ∧ (recvLoop flag s t f).tick = s.tick ∧
      Calmer s.core (recvLoop flag s t f).core := by
  by_cases hempty : s.entry = 0
  · have htime : f.timeout = 0 := hreturns.resolve_left (not_not_intro hempty)
    simp only [recvLoop, if_pos hempty, if_pos htime, true_and]
    exact (calmer_setError s.core t .eok).trans (calmer_setError _ t _)
  · rw [recvLoop, if_neg hempty]
    exact ⟨rfl, rfl, Calmer.refl s.core⟩

theorem passes_of_calmer (hframe : s'.frame u = s.frame u) (hcalmer : Calmer s.core s'.core) :
    (queueWaits area).Passes s s' u := by
  constructor
  · intro r d hlocals _
    simpa [queueWaits, locals, hframe] using hlocals
  · intro hactive
    rcases hcalmer u hactive with ⟨hactive', hstat⟩
    exact ⟨hactive', .inr hstat⟩

theorem loop_passes (hready : f.timeout ≠ 0 → (s.core.threads t).stat = .ready)
    (hnone : (loopStarts s t f).map Prod.fst ≠ some u) :
    (queueWaits area).Passes s (recvLoop flag s t f) u := by
  by_cases hreturns : s.entry ≠ 0 ∨ f.timeout = 0
  · rcases loop_returns flag t hreturns with ⟨hframe, -, hcalmer⟩
    exact passes_of_calmer (by rw [hframe]) hcalmer
  · rw [not_or, not_not] at hreturns
    rcases hreturns with ⟨hempty, htime⟩
    have hforever : u = t → ¬0 < f.timeout := by
      intro hut hpos
      rw [loopStarts, if_pos ⟨hempty, hpos⟩, hut] at hnone
      exact hnone rfl
    rw [loop_waits hempty htime]
    constructor
    · intro r d hlocals hr
      by_cases hut : u = t
      · rw [hut] at hlocals
        simp only [queueWaits, locals, update_self, map_some,
          some.injEq, Prod.mk.injEq] at hlocals
        exact absurd (hlocals.1 ▸ hr) (hforever hut)
      · simpa [queueWaits, locals, update_of_ne hut] using hlocals
    · exact asleep_calmer () flag (hready htime) hforever

theorem loop_starts (flag : IpcFlag) (hready : (s.core.threads t).stat = .ready)
    (hsome : loopStarts s t f = some (u, timeout)) : u = t ∧ 0 < timeout ∧ timeout = f.timeout ∧
      locals (recvLoop flag s t f) t = some (timeout, s.tick) ∧
      ((recvLoop flag s t f).core.threads t).stat = .suspend := by
  unfold loopStarts at hsome
  split_ifs at hsome with hwaits
  rw [some.injEq, Prod.mk.injEq] at hsome
  rcases hsome with ⟨rfl, rfl⟩
  have hready' : ((setError s.core t .eok).threads t).stat = .ready := by
    rw [setError_stat]
    exact hready
  rcases asleep_threads () flag f.timeout hready' with ⟨hsuspend, -⟩
  rw [loop_waits hwaits.1 (by omega)]
  refine ⟨rfl, hwaits.2, rfl, ?_, hsuspend⟩
  simp [locals, hwaits.2]

theorem Passes.of_cleared (hpasses : (queueWaits area).Passes
      { s with frame := update s.frame t none } s' u) :
    (queueWaits area).Passes s s' u := by
  constructor
  · intro r d hlocals hr
    have hcleared := hpasses.locals r d hlocals hr
    by_cases hut : u = t
    · simp [queueWaits, locals, hut] at hcleared
    · simpa [queueWaits, locals, update_of_ne hut] using hcleared
  · exact hpasses.timer

theorem resumed_passes (hframe : s.frame t = some f) (hready : (s.core.threads t).stat = .ready)
    (hnone : (starts s (.resumed t)).map Prod.fst ≠ some u) :
    (queueWaits area).Passes s (resumed flag s t f) u := by
  simp only [starts, hframe] at hnone
  unfold resumed
  simp only
  apply Passes.of_cleared
  split_ifs at hnone ⊢ with hcode
  · exact passes_of_calmer rfl (Calmer.refl s.core)
  · exact loop_passes (fun _ => hready) hnone

theorem call_starts (hready : (s.core.threads t).stat = .ready) (hframe : (s.frame t).isNone)
    (hfits : FitsInt32 f.timeout) (hsome : loopStarts s t f = some (u, timeout)) :
    (queueWaits area).Starts s (recvLoop flag s t f) u timeout := by
  rcases loop_starts flag hready hsome with ⟨rfl, hpos, heq, hlocals, hsuspend⟩
  have hnone : locals s u = none := by
    simp [locals, isNone_iff_eq_none.mp hframe]
  constructor
  · exact hpos
  · exact hready
  · exact hsuspend
  · exact hlocals
  · simp only [queueWaits, hnone]
    rw [heq]
    exact hfits.2

theorem resumed_starts (hframe : s.frame t = some f) (hready : (s.core.threads t).stat = .ready)
    (hsome : starts s (.resumed t) = some (u, timeout)) :
    (queueWaits area).Starts s (resumed flag s t f) u timeout := by
  simp only [starts, hframe] at hsome
  unfold resumed
  simp only
  split_ifs at hsome ⊢ with hcode
  rcases loop_starts (s := { s with frame := update s.frame t none }) flag hready hsome
    with ⟨rfl, hpos, heq, hlocals, hsuspend⟩
  have hsome : locals s u = some (f.timeout, f.tickDelta) := by
    simp [locals, hframe]
  constructor
  · exact hpos
  · exact hready
  · exact hsuspend
  · exact hlocals
  · simp only [queueWaits, hsome]
    exact heq

theorem resumed_refuses (hframe : s.frame t = some f) (hready : (s.core.threads t).stat = .ready)
    (hempty : s.entry = 0) (hzero : remaining f.timeout f.tickDelta s.tick = 0) :
    Refused s (resumed flag s t f) t := by
  unfold resumed
  simp only [hzero]
  split_ifs with hcode
  · exact ⟨f, _, hframe, ReturnCode.ofError_ne_eok hcode, rfl, update_self t _ _, hready⟩
  · simp only [recvLoop, if_pos hempty, if_true]
    refine ⟨f, .etimeout, hframe, ReturnCode.noConfusion, rfl, update_self t _ _, ?_⟩
    exact (setError_stat _ t t .etimeout).trans ((setError_stat s.core t t .eok).trans hready)

def Quiet (s s' : MqState) : Prop :=
  s'.frame = s.frame ∧ s'.tick = s.tick ∧ Calmer s.core s'.core

theorem takeFree_quiet (msgSize : ℕ) (urgent : Bool) (s : MqState) (buffer : List UInt8) :
    Quiet s (takeFree msgSize urgent s buffer) := by
  unfold takeFree
  split_ifs
  · exact ⟨rfl, rfl, Calmer.refl s.core⟩
  · exact ⟨rfl, rfl, Calmer.refl s.core⟩
  · exact ⟨rfl, rfl, Calmer.refl s.core⟩

theorem link_quiet (urgent : Bool) (s : MqState) (msg : ℕ) (buffer : List UInt8) :
    Quiet s (link urgent s msg buffer) := by
  cases urgent with
  | false | true => exact ⟨rfl, rfl, calmer_rtIpcListResume () s.core⟩

theorem proceed_quiet (msgSize : ℕ) (s : MqState) (op : Op) : Quiet s (proceed msgSize s op) := by
  cases op with
  | send urgent msg buffer copied =>
    cases copied with
    | false => exact ⟨rfl, rfl, Calmer.refl s.core⟩
    | true => exact link_quiet urgent s msg buffer
  | recv msg size buffer takenAt =>
    cases buffer with
    | none | some buffer => exact ⟨rfl, rfl, Calmer.refl s.core⟩

theorem releaseAll_quiet {fuel : ℕ} (hrelease : releaseAll fuel s = some s') : Quiet s s' := by
  induction fuel generalizing s with
  | zero =>
    unfold releaseAll at hrelease
    split_ifs at hrelease
    rw [← some.inj hrelease]
    exact ⟨rfl, rfl, Calmer.refl s.core⟩
  | succ fuel ih =>
    unfold releaseAll at hrelease
    split_ifs at hrelease
    · rw [← some.inj hrelease]
      exact ⟨rfl, rfl, Calmer.refl s.core⟩
    · have hquiet := ih hrelease
      exact hquiet

theorem rtMqReset_quiet {maxMsgs : ℕ} (hreset : rtMqReset maxMsgs s = some s') : Quiet s s' := by
  rcases bind_eq_some_iff.mp hreset with ⟨core, hcore, hreset⟩
  rcases bind_eq_some_iff.mp hreset with ⟨released, hrelease, hreset⟩
  rw [← some.inj hreset]
  rcases releaseAll_quiet hrelease with ⟨hframe, htick, hcalmer⟩
  exact ⟨hframe, htick, (calmer_rtIpcListResumeAll hcore).trans hcalmer⟩

theorem Quiet.passes (hquiet : Quiet s s') : (queueWaits area).Passes s s' u :=
  passes_of_calmer (congrFun hquiet.1 u) hquiet.2.2

theorem rtMqRecv_passes {size : ℕ} (hready : timeout ≠ 0 → (s.core.threads t).stat = .ready)
    (hnone : (loopStarts s t ⟨size, timeout, 0⟩).map Prod.fst ≠ some u) :
    (queueWaits area).Passes s (rtMqRecv flag s t size timeout) u := by
  unfold rtMqRecv
  split_ifs
  · exact passes_of_calmer rfl (Calmer.refl s.core)
  · exact loop_passes hready hnone

theorem loop_tick (flag : IpcFlag) (s : MqState) (t : Thread) (f : Frame) :
    (recvLoop flag s t f).tick = s.tick := by
  by_cases hreturns : s.entry ≠ 0 ∨ f.timeout = 0
  · exact (loop_returns flag t hreturns).2.1
  · rw [not_or, not_not] at hreturns
    rw [loop_waits hreturns.1 hreturns.2]

theorem execute_tick {action : Action} (hstep : execute area s action = some s') :
    s'.tick = s.tick ∨ s'.tick = add32 s.tick 1 := by
  cases action with
  | send buffer =>
    rw [← some.inj hstep]
    exact .inl (takeFree_quiet area.msgSize false s buffer).2.1
  | urgent buffer =>
    rw [← some.inj hstep]
    exact .inl (takeFree_quiet area.msgSize true s buffer).2.1
  | recv t size time =>
    rw [← some.inj hstep]
    unfold rtMqRecv
    split_ifs
    · exact .inl rfl
    · exact .inl (loop_tick area.flag s t _)
  | resumed t =>
    unfold execute at hstep
    cases hframe : s.frame t with
    | none =>
      simp only [hframe] at hstep
      rw [← some.inj hstep]
      exact .inl rfl
    | some f =>
      simp only [hframe] at hstep
      rw [← some.inj hstep]
      unfold resumed
      simp only
      split_ifs
      · exact .inl rfl
      · exact .inl (loop_tick area.flag _ t _)
  | proceed op =>
    rw [← some.inj hstep]
    exact .inl (proceed_quiet area.msgSize s op).2.1
  | reset => exact .inl (rtMqReset_quiet hstep).2.1
  | timeout t =>
    rw [← some.inj hstep]
    exact .inl rfl
  | tick =>
    rw [← some.inj hstep]
    exact .inr rfl

theorem queueWaits_disciplined (area : MqArea a) :
    (queueWaits area).Disciplined fun _ action => Fits action := by
  constructor
  · intro s hinit t
    have hthread := hinit.2.1 t
    exact ⟨by simp [queueWaits, locals, hthread.2.2], hthread.2.1⟩
  · intro s action s' hstep htick
    cases action with
    | wake t =>
      rw [show s' = _ from hstep]
      exact htick
    | act action =>
      rcases execute_tick hstep.2 with hsame | hnext
      · exact hsame.trans_lt htick
      · exact hnext.trans_lt (add32_lt _ _)
  · intro s action s' hguard hstep u hnone
    cases action with
    | wake t =>
      rw [show s' = _ from hstep]
      exact passes_of_calmer rfl (calmer_rtThreadResume s.core t)
    | act action =>
      rcases hstep with ⟨henabled, hstep⟩
      cases action with
      | send buffer =>
        rw [← some.inj hstep]
        exact (takeFree_quiet area.msgSize false s buffer).passes
      | urgent buffer =>
        rw [← some.inj hstep]
        exact (takeFree_quiet area.msgSize true s buffer).passes
      | recv t size time =>
        rw [← some.inj hstep]
        exact rtMqRecv_passes (fun hne => (henabled.resolve_left hne).1) hnone
      | resumed t =>
        rcases isSome_iff_exists.mp henabled.2 with ⟨f, hframe⟩
        simp only [execute, hframe] at hstep
        rw [← some.inj hstep]
        exact resumed_passes hframe henabled.1 hnone
      | proceed op =>
        rw [← some.inj hstep]
        exact (proceed_quiet area.msgSize s op).passes
      | reset => exact (rtMqReset_quiet hstep).passes
      | timeout t =>
        rw [← some.inj hstep]
        exact passes_of_calmer rfl (calmer_rtThreadTimeout s.core t)
      | tick =>
        rw [← some.inj hstep]
        exact passes_of_calmer rfl (Calmer.refl s.core)
  · intro s action s' hguard hstep u timeout hsome
    cases action with
    | wake t => exact absurd hsome (by simp [queueWaits])
    | act action =>
      rcases hstep with ⟨henabled, hstep⟩
      cases action with
      | recv t size time =>
        have hne : time ≠ 0 := by
          intro hzero
          exact absurd hsome (by simp [queueWaits, starts, loopStarts, hzero])
        rcases henabled.resolve_left hne with ⟨hready, hframe⟩
        simp only [execute, rtMqRecv, hne, and_false, if_false] at hstep
        rw [← some.inj hstep]
        exact call_starts hready hframe hguard hsome
      | resumed t =>
        rcases isSome_iff_exists.mp henabled.2 with ⟨f, hframe⟩
        simp only [execute, hframe] at hstep
        rw [← some.inj hstep]
        exact resumed_starts hframe henabled.1 hsome
      | _ => exact absurd hsome (by simp [queueWaits, starts])
  · intro s s' t r d hlocals hr hzero hunavailable hstep
    rcases hunavailable with ⟨hframe, hempty⟩
    rcases isSome_iff_exists.mp hframe with ⟨f, hframe⟩
    rcases hstep with ⟨henabled, hstep⟩
    simp only [queueWaits, locals, hframe, map_some, some.injEq,
      Prod.mk.injEq] at hlocals
    rcases hlocals with ⟨rfl, rfl⟩
    simp only [execute, hframe] at hstep
    rw [← some.inj hstep]
    exact resumed_refuses hframe henabled.1 hempty hzero

end MessageQueue

namespace Ipc

open Mailbox MessageQueue

variable {a : AlignSize}

/-- Whatever wakes its thread up, a waiting call on a mailbox or a message queue sets its
timer to the tick at which it first blocked plus the timeout it was given, and behind
this tick it does not block again. -/
theorem waits_keep_deadline
    {c : MailboxConfig} {area : MqArea a} {s : Timed MailboxState} {q : Timed MqState}
    (hs : (mailboxWaits c).timed.Reachable (fun _ action => Mailbox.Fits action) s)
    (hq : (queueWaits area).timed.Reachable (fun _ action => MessageQueue.Fits action) q) :
    (mailboxWaits c).KeepsDeadlines (fun _ action => Mailbox.Fits action) s ∧
      (queueWaits area).KeepsDeadlines (fun _ action => MessageQueue.Fits action) q :=
  ⟨Waits.keepsDeadlines (mailboxWaits_disciplined c) hs,
    Waits.keepsDeadlines (queueWaits_disciplined area) hq⟩

instance (timeout : ℤ) : Decidable (FitsInt32 timeout) :=
  inferInstanceAs (Decidable (_ ∧ _))

instance (action : Mailbox.Action) : Decidable action.FitsInt32 :=
  match action with
  | .sendWait _ _ time => inferInstanceAs (Decidable (FitsInt32 time))
  | .recv _ time => inferInstanceAs (Decidable (FitsInt32 time))
  | .send _ _ => isTrue trivial
  | .resumed _ => isTrue trivial
  | .timeout _ => isTrue trivial
  | .tick => isTrue trivial

instance (action : MessageQueue.Action) : Decidable (MessageQueue.Fits (.act action)) :=
  match action with
  | .recv _ _ time => inferInstanceAs (Decidable (FitsInt32 time))
  | .send _ => isTrue trivial
  | .urgent _ => isTrue trivial
  | .resumed _ => isTrue trivial
  | .proceed _ => isTrue trivial
  | .reset => isTrue trivial
  | .timeout _ => isTrue trivial
  | .tick => isTrue trivial

def tryMailbox (c : MailboxConfig) (s : MailboxState) :
    Disturbed Mailbox.Action → Option MailboxState
  | .act action =>
    if action.Enabled s ∧ action.FitsInt32 then some (Mailbox.execute c s action) else none
  | .wake t => some { s with core := rtThreadResume s.core t }

def tryQueue (area : MqArea a) (s : MqState) : Disturbed MessageQueue.Action → Option MqState
  | .act action =>
    if action.Enabled s ∧ MessageQueue.Fits (.act action)
    then MessageQueue.execute area s action else none
  | .wake t => some { s with core := rtThreadResume s.core t }

theorem tryMailbox_sound {c : MailboxConfig} (s : MailboxState) (action : Disturbed Mailbox.Action)
    (s' : MailboxState) (hstep : tryMailbox c s action = some s') :
    Mailbox.Fits action ∧ (mailboxWaits c).system.step s action s' := by
  cases action with
  | act action =>
    simp only [tryMailbox] at hstep
    split_ifs at hstep with htest
    rw [← some.inj hstep]
    exact ⟨htest.2, htest.1, rfl⟩
  | wake t => exact ⟨trivial, (some.inj hstep).symm⟩

theorem tryQueue_sound {area : MqArea a} (s : MqState) (action : Disturbed MessageQueue.Action)
    (s' : MqState) (hstep : tryQueue area s action = some s') :
    MessageQueue.Fits action ∧ (queueWaits area).system.step s action s' := by
  cases action with
  | act action =>
    simp only [tryQueue] at hstep
    split_ifs at hstep with htest
    exact ⟨htest.2, htest.1, hstep⟩
  | wake t => exact ⟨trivial, (some.inj hstep).symm⟩

/-- The receivers of an empty mailbox and of an empty queue are woken up three ticks
later, behind the last 32-bit tick but one, and their timers still expire at tick five. -/
theorem waits_keep_deadline_in_sample : ∃ s q,
      (s.timeoutTick firstThread, s.first firstThread, s.state.tick) =
        (5, some (4294967291, 10), 4294967294) ∧
      (q.timeoutTick firstThread, q.first firstThread, q.state.tick) =
        (5, some (4294967291, 10), 4294967294) ∧
      (mailboxWaits sampleConfig).KeepsDeadlines (fun _ action => Mailbox.Fits action) s ∧
      (queueWaits sampleArea).KeepsDeadlines (fun _ action => MessageQueue.Fits action) q := by
  have hmailbox : (([.act (.recv firstThread 10), .act .tick, .act .tick, .act .tick,
        .wake firstThread, .act (.resumed firstThread)] :
        List (Disturbed Mailbox.Action)).foldlM
      (fun s action => (tryMailbox sampleConfig s.state action).map
        ((mailboxWaits sampleConfig).advance s action))
      (⟨{ Mailbox.sampleInit with tick := 4294967291 }, fun _ => 0, fun _ => none⟩ :
        Timed MailboxState)).map
        (fun s => (s.timeoutTick firstThread, s.first firstThread, s.state.tick)) =
      some (5, some (4294967291, 10), 4294967294) := by
    decide +kernel
  have hqueue : (([.act (.recv firstThread 4 10), .act .tick, .act .tick, .act .tick,
        .wake firstThread, .act (.resumed firstThread)] :
        List (Disturbed MessageQueue.Action)).foldlM
      (fun s action => (tryQueue sampleArea s.state action).map
        ((queueWaits sampleArea).advance s action))
      (⟨{ MessageQueue.sampleInit with tick := 4294967291 }, fun _ => 0, fun _ => none⟩ :
        Timed MqState)).map
        (fun s => (s.timeoutTick firstThread, s.first firstThread, s.state.tick)) =
      some (5, some (4294967291, 10), 4294967294) := by
    decide +kernel
  rcases Waits.exists_timed ⟨Mailbox.init_sampleInit sampleConfig, by decide, fun _ => rfl⟩
    tryMailbox_sound hmailbox with ⟨s, hs, hvalue⟩
  rcases Waits.exists_timed ⟨MessageQueue.init_sampleInit, by decide, fun _ => rfl⟩
    tryQueue_sound hqueue with ⟨q, hq, hvalue'⟩
  exact ⟨s, q, hvalue, hvalue', waits_keep_deadline hs hq⟩

end Ipc
end RtThread
