import RtThread.IpcModel
import RtThread.GuardedRun

/-!
# Mutexes

Any number of mutexes and threads.  A thread which blocks lends its priority to
the owner; the owner gets the priority back which it had when it took the mutex.
A release hands the mutex to the first waiting thread.
-/

namespace RtThread.Mutex

open Ipc

structure RtMutex where
  value : ℕ
  originalPriority : ℕ
  hold : ℕ
  owner : Option Thread
  flag : IpcFlag

structure MutexState (κ : Type) where
  core : Core κ
  mutexes : κ → RtMutex

variable {κ : Type} [DecidableEq κ]

def MutexState.setMutex (s : MutexState κ) (m : κ) (mutex : RtMutex) : MutexState κ :=
  { s with mutexes := Function.update s.mutexes m mutex }

def rtMutexInit (flag : IpcFlag) : RtMutex where
  value := 1
  originalPriority := 0xff
  hold := 0
  owner := none
  flag := flag

def raiseOwner (core : Core κ) (owner t : Thread) : Core κ :=
  if core.priority t < core.priority owner then
    changePriority core owner (core.priority t)
  else core

/-- `rt_mutex_take` up to `rt_schedule()`, after which it only returns `error`;
`none` is an access through an owner which is `RT_NULL`. -/
def rtMutexTake (s : MutexState κ) (m : κ) (t : Thread) (time : ℤ) : Option (MutexState κ) :=
  let s := { s with core := setError s.core t .eok }
  let mutex := s.mutexes m
  if mutex.owner = some t then
    some (s.setMutex m { mutex with hold := (mutex.hold + 1) % 256 })
  else if 0 < mutex.value then
    some (s.setMutex m
      { mutex with
        value := mutex.value - 1
        owner := some t
        originalPriority := s.core.priority t
        hold := (mutex.hold + 1) % 256 })
  else if time = 0 then some { s with core := setError s.core t .etimeout }
  else mutex.owner.map fun owner =>
    let core := raiseOwner s.core owner t
    { s with core := startTimer (rtIpcListSuspend core m mutex.flag t) t time }

def restorePriority (core : Core κ) (t : Thread) (priority : ℕ) : Core κ :=
  if priority ≠ core.priority t then changePriority core t priority else core

def passOn (s : MutexState κ) (m : κ) (t : Thread) (mutex : RtMutex) : MutexState κ :=
  let core := restorePriority s.core t mutex.originalPriority
  match core.wait m with
  | u :: _ =>
    { s.setMutex m
        { mutex with
          owner := some u
          originalPriority := core.priority u
          hold := (mutex.hold + 1) % 256 } with
      core := rtThreadResume core u }
  | [] =>
    { s.setMutex m
        { mutex with
          value := (mutex.value + 1) % 65536
          owner := none
          originalPriority := 0xff } with
      core := core }

def rtMutexRelease (s : MutexState κ) (m : κ) (t : Thread) : MutexState κ :=
  let mutex := s.mutexes m
  if some t ≠ mutex.owner then { s with core := setError s.core t .error }
  else
    let mutex := { mutex with hold := (mutex.hold + 255) % 256 }
    if mutex.hold = 0 then passOn s m t mutex else s.setMutex m mutex

inductive Action (κ : Type) where
  | take (t : Thread) (m : κ) (time : ℤ)
  | release (t : Thread) (m : κ)
  | timeout (t : Thread)

def Action.Enabled (s : MutexState κ) : Action κ → Prop
  | .take t _ _ => (s.core.threads t).stat = .ready
  | .release t _ => (s.core.threads t).stat = .ready
  | .timeout t => (s.core.threads t).timerActive = true

def execute (s : MutexState κ) : Action κ → Option (MutexState κ)
  | .take t m time => rtMutexTake s m t time
  | .release t m => some (rtMutexRelease s m t)
  | .timeout t => some { s with core := rtThreadTimeout s.core t }

def mutexSystem (flags : κ → IpcFlag) (initPriority : Thread → ℕ) :
    TransitionSystem (MutexState κ) (Action κ) where
  init s := (∀ m, s.core.wait m = []) ∧
    (∀ t, (s.core.threads t).stat = .ready ∧ (s.core.threads t).timerActive = false ∧
      (s.core.threads t).currentPriority = initPriority t) ∧
    ∀ m, s.mutexes m = rtMutexInit (flags m)
  step s action s' := action.Enabled s ∧ execute s action = some s'

variable {s s' : MutexState κ} {m : κ} {t : Thread} {time : ℤ}

theorem rtMutexTake_cases (htake : rtMutexTake s m t time = some s') :
    ((s.mutexes m).owner = some t ∧
        s' = { s.setMutex m { s.mutexes m with hold := ((s.mutexes m).hold + 1) % 256 } with
          core := setError s.core t .eok }) ∨
      ((s.mutexes m).owner ≠ some t ∧ 0 < (s.mutexes m).value ∧
        s' = { s.setMutex m
            { s.mutexes m with
              value := (s.mutexes m).value - 1
              owner := some t
              originalPriority := (setError s.core t .eok).priority t
              hold := ((s.mutexes m).hold + 1) % 256 } with
          core := setError s.core t .eok }) ∨
      ((s.mutexes m).owner ≠ some t ∧ (s.mutexes m).value = 0 ∧ time = 0 ∧
        s' = { s with core := setError (setError s.core t .eok) t .etimeout }) ∨
      ∃ owner, (s.mutexes m).owner = some owner ∧ owner ≠ t ∧ (s.mutexes m).value = 0 ∧ time ≠ 0 ∧
        s' = { s with
          core := asleep (raiseOwner (setError s.core t .eok) owner t) m
            (s.mutexes m).flag t time } := by
  unfold rtMutexTake at htake
  simp only at htake
  split_ifs at htake with howner hvalue htime
  · exact .inl ⟨howner, (Option.some.inj htake).symm⟩
  · exact .inr (.inl ⟨howner, hvalue, (Option.some.inj htake).symm⟩)
  · exact .inr (.inr (.inl ⟨howner, by omega, htime, (Option.some.inj htake).symm⟩))
  · rcases Option.map_eq_some_iff.mp htake with ⟨owner, hsome, hs'⟩
    have hne : owner ≠ t := fun heq => howner (heq ▸ hsome)
    exact .inr (.inr (.inr ⟨owner, hsome, hne, by omega, htime, hs'.symm⟩))

theorem rtMutexRelease_cases (s : MutexState κ) (m : κ) (t : Thread) :
    ((s.mutexes m).owner ≠ some t ∧
        rtMutexRelease s m t = { s with core := setError s.core t .error }) ∨
      ((s.mutexes m).owner = some t ∧ ((s.mutexes m).hold + 255) % 256 ≠ 0 ∧
        rtMutexRelease s m t = s.setMutex m
          { s.mutexes m with hold := ((s.mutexes m).hold + 255) % 256 }) ∨
      ((s.mutexes m).owner = some t ∧ ((s.mutexes m).hold + 255) % 256 = 0 ∧
        rtMutexRelease s m t = passOn s m t { s.mutexes m with hold := 0 }) := by
  unfold rtMutexRelease
  by_cases howner : some t ≠ (s.mutexes m).owner
  · rw [if_pos howner]
    exact .inl ⟨howner.symm, rfl⟩
  · rw [if_neg howner]
    have howner' := (not_not.mp howner).symm
    by_cases hhold : ((s.mutexes m).hold + 255) % 256 = 0
    · rw [if_pos hhold]
      exact .inr (.inr ⟨howner', hhold, by rw [hhold]⟩)
    · rw [if_neg hhold]
      exact .inr (.inl ⟨howner', hhold, rfl⟩)

end RtThread.Mutex
