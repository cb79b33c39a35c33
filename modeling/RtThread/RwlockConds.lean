import RtThread.CondModel
import RtThread.RwlockCounts

/-!
# Reader-writer locks and their conditions

The waits of a lock are those of its two conditions.  A thread whose wait has a time limit may
come back without a wake-up, and a lock may be destroyed.
-/

namespace RtThread.Rwlock

open Cond (CondState Wait)

def EINVAL : ℤ := 22

inductive Side where
  | readers
  | writers
  deriving DecidableEq

def Call.side (call : Call) : Side := if call.reads then .readers else .writers

def Call.timed : Call → Bool
  | .timedrdlock | .timedwrlock => true
  | _ => false

/-- What `pthread_cond_wait` or `pthread_cond_timedwait` returns for a result of
`_pthread_cond_timedwait`. -/
def Call.waitResult (call : Call) (result : ℤ) : ℤ :=
  if result = Cond.RT_EOK then 0
  else if call.timed ∧ result = -Cond.RT_ETIMEOUT then ETIMEDOUT
  else EINVAL

/-- A lock with its conditions; `alive` ends with `pthread_rwlock_destroy`. -/
structure LockState (κ : Type) where
  lock : RwlockState κ
  conds : Side → CondState κ
  alive : Bool

variable {κ : Type} [DecidableEq κ]

namespace LockState

def setCond (s : LockState κ) (side : Side) (c : CondState κ) : LockState κ :=
  { s with conds := Function.update s.conds side c }

/-- The end of `pthread_rwlock_unlock`: the turn goes to a writer, or to the readers. -/
def passTurn (s : LockState κ) : LockState κ :=
  if 0 < s.lock.rwNwaitwriters then
    if s.lock.rwRefcount = 0 then
      s.setCond .writers (s.conds .writers).pthreadCondSignal
    else s
  else if 0 < s.lock.rwNwaitreaders then
    s.setCond .readers (s.conds .readers).pthreadCondBroadcast
  else s

def test (s : LockState κ) (t : κ) (call : Call) : LockState κ :=
  let s := { s with lock := s.lock.test t call }
  if call = .unlock then s.passTurn
  else if (s.lock.threads t).phase = .waiting call then
    s.setCond call.side ((s.conds call.side).setWait t .released)
  else s

def Busy (s : LockState κ) : Prop :=
  s.lock.rwRefcount ≠ 0 ∨ s.lock.rwNwaitreaders ≠ 0 ∨ s.lock.rwNwaitwriters ≠ 0

instance decidableBusy (s : LockState κ) : Decidable s.Busy :=
  inferInstanceAs (Decidable (_ ∨ _))

def trytake (c : CondState κ) : CondState κ := { c with value := c.value - 1 }

/-- `pthread_rwlock_destroy`.  It holds `rw_mutex` from the first test on, and returns from a
busy lock without releasing it.  What is left of a destroyed lock is not used. -/
def pthreadRwlockDestroy (s : LockState κ) (t : κ) : ℤ × LockState κ :=
  if s.Busy then (EBUSY, { s with lock := { s.lock with owner := some t } })
  else if 0 < (s.conds .readers).value then
    if 0 < (s.conds .writers).value then (0, { s with alive := false })
    else (EBUSY, s.setCond .readers (trytake (s.conds .readers)).rtSemRelease)
  else (EBUSY, s)

end LockState

/-- The steps of `Action`; in `deadlock` a thread calls which owns `rw_mutex`.  Inside a wait
`rt_sem_take` is called, and its time ends. -/
inductive LockAction (κ : Type) where
  | enter (t : κ) (call : Call)
  | lock (t : κ) (call : Call)
  | deadlock (t : κ) (call : Call)
  | test (t : κ) (call : Call)
  | take (t : κ) (call : Call)
  | timeout (t : κ) (call : Call)
  | wake (t : κ) (call : Call) (result : ℤ)
  | countOut (t : κ) (call : Call) (result : ℤ)
  | leave (t : κ) (call : Call) (result : ℤ)
  | destroy (t : κ)
  deriving DecidableEq

def TimesOut (c : CondState κ) (t : κ) : Prop :=
  c.waits t = .suspended ∨ c.waits t = .released ∧ c.value = 0

instance decidableTimesOut (c : CondState κ) (t : κ) : Decidable (TimesOut c t) :=
  inferInstanceAs (Decidable (_ ∨ _))

def LockAction.Enabled (s : LockState κ) (action : LockAction κ) : Prop :=
  s.alive = true ∧ match action with
    | .enter t call => Action.Enabled s.lock (.enter t call)
    | .lock t call => Action.Enabled s.lock (.lock t call)
    | .deadlock t call => (s.lock.threads t).phase = .locking call ∧ s.lock.owner = some t
    | .test t call => Action.Enabled s.lock (.test t call)
    | .take t call =>
      (s.lock.threads t).phase = .waiting call ∧ (s.conds call.side).waits t = .released
    | .timeout t call =>
      (s.lock.threads t).phase = .waiting call ∧ call.timed = true ∧ TimesOut (s.conds call.side) t
    | .wake t call result =>
      Action.Enabled s.lock (.wake t call (call.waitResult result)) ∧
        (s.conds call.side).waits t = .taken result
    | .countOut t call result => Action.Enabled s.lock (.countOut t call result)
    | .leave t call result => Action.Enabled s.lock (.leave t call result)
    | .destroy t => (s.lock.threads t).phase = .outside ∧ s.lock.owner = none

instance decidableLockEnabled (s : LockState κ) (action : LockAction κ) :
    Decidable (action.Enabled s) := by
  cases action <;> unfold LockAction.Enabled <;> infer_instance

def lockExecute (s : LockState κ) : LockAction κ → LockState κ
  | .enter t call => { s with lock := execute s.lock (.enter t call) }
  | .lock t call => { s with lock := execute s.lock (.lock t call) }
  | .deadlock t _ => { s with lock := s.lock.setPhase t .outside }
  | .test t call => s.test t call
  | .take t call => s.setCond call.side ((s.conds call.side).rtSemTake t)
  | .timeout t call => s.setCond call.side ((s.conds call.side).timeout t)
  | .wake t call result =>
    { s.setCond call.side ((s.conds call.side).setWait t .outside) with
      lock := execute s.lock (.wake t call (call.waitResult result)) }
  | .countOut t call result => { s with lock := execute s.lock (.countOut t call result) }
  | .leave t call result => { s with lock := execute s.lock (.leave t call result) }
  | .destroy t => (s.pthreadRwlockDestroy t).2

def lockSystem (κ : Type) [DecidableEq κ] : TransitionSystem (LockState κ) (LockAction κ) where
  init s := (rwlockSystem κ).init s.lock ∧ s.alive = true ∧
      ∀ side, (s.conds side).value = 0 ∧ (s.conds side).suspendThread = [] ∧
        ∀ t, (s.conds side).waits t = .outside
  step s action s' := action.Enabled s ∧ s' = lockExecute s action

end RtThread.Rwlock
