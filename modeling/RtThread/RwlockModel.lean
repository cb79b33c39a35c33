import RtThread.GuardedRun

/-!
# Reader-writer locks

A thread in a call is in `pthread_mutex_lock`, owns `rw_mutex` and is about to test the
counts, is in `pthread_cond_wait` or `pthread_cond_timedwait`, which has released `rw_mutex`,
has come back from there, or is about to release `rw_mutex` and return.  The waits end at any
time with any result.
-/

namespace RtThread.Rwlock

def EBUSY : ℤ := 16
def ETIMEDOUT : ℤ := 110

inductive Call where
  | rdlock
  | tryrdlock
  | timedrdlock
  | wrlock
  | trywrlock
  | timedwrlock
  | unlock
  deriving DecidableEq

def Call.reads : Call → Bool
  | .rdlock | .tryrdlock | .timedrdlock => true
  | _ => false

def Call.writes : Call → Bool
  | .wrlock | .trywrlock | .timedwrlock => true
  | _ => false

inductive Phase where
  | outside
  | locking (call : Call)
  | testing (call : Call)
  | waiting (call : Call)
  | woken (call : Call) (result : ℤ)
  | leaving (call : Call) (result : ℤ)
  deriving DecidableEq

/-- A thread, and the locks which its calls have returned to it and which it has not given
back. -/
structure ThreadState where
  phase : Phase
  reads : ℕ
  writes : ℕ

structure RwlockState (κ : Type) where
  owner : Option κ
  rwNwaitreaders : ℤ
  rwNwaitwriters : ℤ
  rwRefcount : ℤ
  threads : κ → ThreadState

def ThreadState.giveBack (l : ThreadState) : ThreadState :=
  if 0 < l.writes then { l with writes := l.writes - 1 } else { l with reads := l.reads - 1 }

def ThreadState.returned (l : ThreadState) (call : Call) (result : ℤ) : ThreadState where
  phase := .outside
  reads := if result = 0 ∧ call.reads then l.reads + 1 else l.reads
  writes := if result = 0 ∧ call.writes then l.writes + 1 else l.writes

variable {κ : Type} [DecidableEq κ]

namespace RwlockState

def setThread (s : RwlockState κ) (t : κ) (l : ThreadState) : RwlockState κ :=
  { s with threads := Function.update s.threads t l }

def setPhase (s : RwlockState κ) (t : κ) (phase : Phase) : RwlockState κ :=
  s.setThread t { s.threads t with phase := phase }

def ReadBlocked (s : RwlockState κ) : Prop := s.rwRefcount < 0 ∨ 0 < s.rwNwaitwriters

instance decidableReadBlocked (s : RwlockState κ) : Decidable s.ReadBlocked :=
  inferInstanceAs (Decidable (_ ∨ _))

/-- The loop of `pthread_rwlock_rdlock` and `pthread_rwlock_timedrdlock`, up to a wait or to the
release of `rw_mutex`. -/
def testRdlock (s : RwlockState κ) (t : κ) (call : Call) : RwlockState κ :=
  if s.ReadBlocked then
    { s.setPhase t (.waiting call) with owner := none, rwNwaitreaders := s.rwNwaitreaders + 1 }
  else { s.setPhase t (.leaving call 0) with rwRefcount := s.rwRefcount + 1 }

def testTryrdlock (s : RwlockState κ) (t : κ) : RwlockState κ :=
  if s.ReadBlocked then s.setPhase t (.leaving .tryrdlock EBUSY)
  else { s.setPhase t (.leaving .tryrdlock 0) with rwRefcount := s.rwRefcount + 1 }

def testWrlock (s : RwlockState κ) (t : κ) (call : Call) : RwlockState κ :=
  if s.rwRefcount ≠ 0 then
    { s.setPhase t (.waiting call) with owner := none, rwNwaitwriters := s.rwNwaitwriters + 1 }
  else { s.setPhase t (.leaving call 0) with rwRefcount := -1 }

def testTrywrlock (s : RwlockState κ) (t : κ) : RwlockState κ :=
  if s.rwRefcount ≠ 0 then s.setPhase t (.leaving .trywrlock EBUSY)
  else { s.setPhase t (.leaving .trywrlock 0) with rwRefcount := -1 }

def releaseCount (rwRefcount : ℤ) : ℤ :=
  if 0 < rwRefcount then rwRefcount - 1 else if rwRefcount = -1 then 0 else rwRefcount

/-- `pthread_rwlock_unlock`; `pthread_cond_signal` and `pthread_cond_broadcast` return 0. -/
def testUnlock (s : RwlockState κ) (t : κ) : RwlockState κ :=
  { s.setThread t { (s.threads t).giveBack with phase := .leaving .unlock 0 } with
    rwRefcount := releaseCount s.rwRefcount }

def test (s : RwlockState κ) (t : κ) : Call → RwlockState κ
  | .rdlock => s.testRdlock t .rdlock
  | .tryrdlock => s.testTryrdlock t
  | .timedrdlock => s.testRdlock t .timedrdlock
  | .wrlock => s.testWrlock t .wrlock
  | .trywrlock => s.testTrywrlock t
  | .timedwrlock => s.testWrlock t .timedwrlock
  | .unlock => s.testUnlock t

def countOut (s : RwlockState κ) (t : κ) (call : Call) (result : ℤ) : RwlockState κ :=
  let s := s.setPhase t (if result ≠ 0 then .leaving call result else .testing call)
  if call.reads then { s with rwNwaitreaders := s.rwNwaitreaders - 1 }
  else { s with rwNwaitwriters := s.rwNwaitwriters - 1 }

theorem countOut_eq (s : RwlockState κ) (t : κ) (call : Call) (result : ℤ) :
    s.countOut t call result =
      { s.setPhase t (if result ≠ 0 then .leaving call result else .testing call) with
        rwNwaitreaders := s.rwNwaitreaders - if call.reads = true then 1 else 0
        rwNwaitwriters := s.rwNwaitwriters - if call.reads = true then 0 else 1 } := by
  unfold countOut
  cases call.reads <;> simp [setPhase, setThread]

end RwlockState

/-- A call begins, `rw_mutex` is taken, the counts are tested, a wait takes `rw_mutex` again and
returns, its thread is counted out, and a call releases `rw_mutex` and returns. -/
inductive Action (κ : Type) where
  | enter (t : κ) (call : Call)
  | lock (t : κ) (call : Call)
  | test (t : κ) (call : Call)
  | wake (t : κ) (call : Call) (result : ℤ)
  | countOut (t : κ) (call : Call) (result : ℤ)
  | leave (t : κ) (call : Call) (result : ℤ)
  deriving DecidableEq

def Action.Enabled (s : RwlockState κ) : Action κ → Prop
  | .enter t call =>
    (s.threads t).phase = .outside ∧
      (call = .unlock → 0 < (s.threads t).reads + (s.threads t).writes)
  | .lock t call => (s.threads t).phase = .locking call ∧ s.owner = none
  | .test t call => (s.threads t).phase = .testing call
  | .wake t call _ => (s.threads t).phase = .waiting call ∧ s.owner = none
  | .countOut t call result => (s.threads t).phase = .woken call result
  | .leave t call result => (s.threads t).phase = .leaving call result

instance decidableEnabled (s : RwlockState κ) (action : Action κ) : Decidable (action.Enabled s) := by
  cases action <;> unfold Action.Enabled <;> infer_instance

def execute (s : RwlockState κ) : Action κ → RwlockState κ
  | .enter t call => s.setPhase t (.locking call)
  | .lock t call => { s.setPhase t (.testing call) with owner := some t }
  | .test t call => s.test t call
  | .wake t call result => { s.setPhase t (.woken call result) with owner := some t }
  | .countOut t call result => s.countOut t call result
  | .leave t call result =>
    { s.setThread t ((s.threads t).returned call result) with owner := none }

def rwlockSystem (κ : Type) [DecidableEq κ] : TransitionSystem (RwlockState κ) (Action κ) where
  init s := s.owner = none ∧ s.rwNwaitreaders = 0 ∧ s.rwNwaitwriters = 0 ∧ s.rwRefcount = 0 ∧
      ∀ t, s.threads t = ⟨.outside, 0, 0⟩
  step s action s' := action.Enabled s ∧ s' = execute s action

end RtThread.Rwlock
