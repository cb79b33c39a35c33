import RtThread.KernelDefs
import Mathlib.Logic.Function.Basic

/-!
# Threads waiting for kernel objects

The part of `ipc.c` and `thread.c` which all kernel objects share: a thread is
suspended and linked to the `suspend_thread` list of an object, by arrival or by
priority, and leaves the list when it is resumed or times out.  The lists are
named by an arbitrary type, so that one object and many are treated alike.
-/

namespace RtThread.Ipc

open Function List

inductive IpcFlag where
  | fifo
  | prio
  deriving DecidableEq

/-- The members of `struct rt_thread` used here; `timerActive` is the state of
`thread_timer`. -/
structure ThreadBlock where
  stat : ThreadStat
  error : ErrorCode
  currentPriority : ℕ
  timerActive : Bool

/-- The threads, and the threads suspended on each object. -/
structure Core (κ : Type) where
  threads : Thread → ThreadBlock
  wait : κ → List Thread

variable {κ : Type}

namespace Core

def setThread (s : Core κ) (t : Thread) (b : ThreadBlock) : Core κ :=
  { s with threads := update s.threads t b }

def setWait [DecidableEq κ] (s : Core κ) (k : κ) (l : List Thread) : Core κ :=
  { s with wait := update s.wait k l }

def priority (s : Core κ) (t : Thread) : ℕ := (s.threads t).currentPriority

end Core

def setError (s : Core κ) (t : Thread) (code : ErrorCode) : Core κ :=
  s.setThread t { s.threads t with error := code }

def changePriority (s : Core κ) (t : Thread) (priority : ℕ) : Core κ :=
  s.setThread t { s.threads t with currentPriority := priority }

def rtThreadSuspend (s : Core κ) (t : Thread) : Core κ :=
  if (s.threads t).stat ≠ .ready then s
  else s.setThread t { s.threads t with stat := .suspend }

def insertPrio (priority : Thread → ℕ) (t : Thread) : List Thread → List Thread
  | [] => [t]
  | u :: us =>
    if priority t < priority u then t :: u :: us
    else u :: insertPrio priority t us

def enqueue (priority : Thread → ℕ) (flag : IpcFlag) (t : Thread) (l : List Thread) :
    List Thread :=
  match flag with
  | .fifo => l ++ [t]
  | .prio => insertPrio priority t l

def rtIpcListSuspend [DecidableEq κ] (s : Core κ) (k : κ) (flag : IpcFlag) (t : Thread) :
    Core κ :=
  let s := rtThreadSuspend s t
  s.setWait k (enqueue s.priority flag t (s.wait k))

def startTimer (s : Core κ) (t : Thread) (time : ℤ) : Core κ :=
  if 0 < time then s.setThread t { s.threads t with timerActive := true } else s

def makeReady (s : Core κ) (t : Thread) : Core κ :=
  { s.setThread t { s.threads t with stat := .ready, timerActive := false } with
    wait := fun k => (s.wait k).erase t }

def rtThreadResume (s : Core κ) (t : Thread) : Core κ :=
  if (s.threads t).stat ≠ .suspend then s else makeReady s t

def rtThreadTimeout (s : Core κ) (t : Thread) : Core κ :=
  makeReady (setError s t .etimeout) t

/-- The loop of `rt_ipc_list_resume_all`; `none` when it does not end within the
given number of rounds. -/
def rtIpcListResumeAll (k : κ) : ℕ → Core κ → Option (Core κ)
  | 0, s => if s.wait k = [] then some s else none
  | fuel + 1, s =>
    match s.wait k with
    | [] => some s
    | t :: _ => rtIpcListResumeAll k fuel (rtThreadResume (setError s t .error) t)

/-- A suspended thread is on one list only, once, and only it has its timer running. -/
structure Linked (s : Core κ) : Prop where
  nodup : ∀ k, (s.wait k).Nodup
  unique : ∀ k l t, t ∈ s.wait k → t ∈ s.wait l → k = l
  suspended : ∀ k t, t ∈ s.wait k → (s.threads t).stat = .suspend
  timer : ∀ t, (s.threads t).timerActive = true → (s.threads t).stat = .suspend

def woken (s : Core κ) (t : Thread) (code : ErrorCode) : Core κ :=
  { s.setThread t ⟨.ready, code, (s.threads t).currentPriority, false⟩ with
    wait := fun k => (s.wait k).erase t }

variable {s s' : Core κ} {t u : Thread} {k l : κ} {code : ErrorCode}

theorem woken_self (s : Core κ) (t : Thread) (code : ErrorCode) :
    (woken s t code).threads t = ⟨.ready, code, (s.threads t).currentPriority, false⟩ := by
  simp [woken, Core.setThread]

theorem woken_of_ne (hne : u ≠ t) : (woken s t code).threads u = s.threads u := by
  simp [woken, Core.setThread, hne]

theorem woken_wait (s : Core κ) (t : Thread) (code : ErrorCode) (k : κ) :
    (woken s t code).wait k = (s.wait k).erase t := rfl

theorem makeReady_eq (s : Core κ) (t : Thread) :
    makeReady s t = woken s t (s.threads t).error := rfl

theorem makeReady_setError (s : Core κ) (t : Thread) (code : ErrorCode) :
    makeReady (setError s t code) t = woken s t code := by
  simp [makeReady, setError, woken, Core.setThread]

theorem rtThreadTimeout_eq (s : Core κ) (t : Thread) : rtThreadTimeout s t = woken s t .etimeout :=
  makeReady_setError s t .etimeout

@[simp] theorem setError_priority (s : Core κ) (t u : Thread) (code : ErrorCode) :
    (setError s t code).priority u = s.priority u := by
  by_cases hut : u = t
  · simp [hut, setError, Core.setThread, Core.priority]
  · simp [hut, setError, Core.setThread, Core.priority]

@[simp] theorem setError_stat (s : Core κ) (t u : Thread) (code : ErrorCode) :
    ((setError s t code).threads u).stat = (s.threads u).stat := by
  by_cases hut : u = t
  · simp [hut, setError, Core.setThread]
  · simp [hut, setError, Core.setThread]

@[simp] theorem changePriority_priority (s : Core κ) (t u : Thread) (p : ℕ) :
    (changePriority s t p).priority u = if u = t then p else s.priority u := by
  by_cases hut : u = t
  · simp [hut, changePriority, Core.setThread, Core.priority]
  · simp [hut, changePriority, Core.setThread, Core.priority]

@[simp] theorem changePriority_stat (s : Core κ) (t u : Thread) (p : ℕ) :
    ((changePriority s t p).threads u).stat = (s.threads u).stat := by
  by_cases hut : u = t
  · simp [hut, changePriority, Core.setThread]
  · simp [hut, changePriority, Core.setThread]

@[simp] theorem woken_priority (s : Core κ) (t u : Thread) (code : ErrorCode) :
    (woken s t code).priority u = s.priority u := by
  by_cases hut : u = t
  · simp [hut, Core.priority, woken_self]
  · simp [Core.priority, woken_of_ne hut]

theorem insertPrio_perm (priority : Thread → ℕ) (t : Thread) (l : List Thread) :
    (insertPrio priority t l).Perm (t :: l) := by
  induction l with
  | nil => exact Perm.refl _
  | cons v l ih =>
    rw [insertPrio]
    split_ifs
    · exact Perm.refl _
    · exact (ih.cons v).trans (Perm.swap t v l)

theorem enqueue_perm (priority : Thread → ℕ) (flag : IpcFlag) (t : Thread) (l : List Thread) :
    (enqueue priority flag t l).Perm (t :: l) := by
  cases flag with
  | fifo => exact perm_append_singleton t l
  | prio => exact insertPrio_perm priority t l

namespace Linked

theorem of_empty (hwait : ∀ k, s.wait k = []) (htimer : ∀ t, (s.threads t).timerActive = false) :
    Linked s := by
  constructor
  · intro k
    rw [hwait]
    exact nodup_nil
  · intro k l t ht
    rw [hwait] at ht
    cases ht
  · intro k t ht
    rw [hwait] at ht
    cases ht
  · intro t hactive
    rw [htimer] at hactive
    cases hactive

section

variable (hlinked : Linked s)
include hlinked

theorem not_mem_of_ready (hready : (s.threads t).stat = .ready) : t ∉ s.wait k := by
  intro hmem
  rw [hlinked.suspended k t hmem] at hready
  cases hready

theorem rtThreadResume_eq (hmem : t ∈ s.wait k) :
    rtThreadResume s t = woken s t (s.threads t).error := by
  unfold rtThreadResume
  rw [if_neg (by simp [hlinked.suspended k t hmem]), makeReady_eq]

theorem rtThreadResume_setError (hmem : t ∈ s.wait k) :
    rtThreadResume (setError s t code) t = woken s t code := by
  unfold rtThreadResume
  rw [if_neg (by simp [setError, Core.setThread, hlinked.suspended k t hmem]), makeReady_setError]

theorem of_threads (hwait : s'.wait = s.wait)
    (hstat : ∀ t, (s'.threads t).stat = (s.threads t).stat)
    (htimer : ∀ t, (s'.threads t).timerActive = (s.threads t).timerActive) : Linked s' := by
  constructor
  · rw [hwait]
    exact hlinked.nodup
  · rw [hwait]
    exact hlinked.unique
  · intro k t hmem
    rw [hwait] at hmem
    rw [hstat]
    exact hlinked.suspended k t hmem
  · intro t
    rw [hstat, htimer]
    exact hlinked.timer t

theorem setError (t : Thread) (code : ErrorCode) : Linked (setError s t code) := by
  have hother : ∀ u, ((Ipc.setError s t code).threads u).stat = (s.threads u).stat ∧
      ((Ipc.setError s t code).threads u).timerActive = (s.threads u).timerActive := by
    intro u
    by_cases hut : u = t
    · simp [hut, Ipc.setError, Core.setThread]
    · simp [hut, Ipc.setError, Core.setThread]
  exact hlinked.of_threads rfl (fun u => (hother u).1) (fun u => (hother u).2)

theorem changePriority (t : Thread) (p : ℕ) : Linked (changePriority s t p) := by
  have hother : ∀ u, ((Ipc.changePriority s t p).threads u).stat = (s.threads u).stat ∧
      ((Ipc.changePriority s t p).threads u).timerActive = (s.threads u).timerActive := by
    intro u
    by_cases hut : u = t
    · simp [hut, Ipc.changePriority, Core.setThread]
    · simp [hut, Ipc.changePriority, Core.setThread]
  exact hlinked.of_threads rfl (fun u => (hother u).1) (fun u => (hother u).2)

theorem woken (t : Thread) (code : ErrorCode) : Linked (woken s t code) := by
  have hmem : ∀ k u, u ∈ (Ipc.woken s t code).wait k → u ≠ t ∧ u ∈ s.wait k :=
    fun k u hu => ((hlinked.nodup k).mem_erase_iff).mp hu
  constructor
  · intro k
    exact (hlinked.nodup k).erase t
  · intro k l u hk hl
    exact hlinked.unique k l u (hmem k u hk).2 (hmem l u hl).2
  · intro k u hu
    rcases hmem k u hu with ⟨hut, hu⟩
    rw [woken_of_ne hut]
    exact hlinked.suspended k u hu
  · intro u
    by_cases hut : u = t
    · simp [hut, woken_self]
    · rw [woken_of_ne hut]
      exact hlinked.timer u

end

end Linked

theorem startTimer_wait (s : Core κ) (t : Thread) (time : ℤ) :
    (startTimer s t time).wait = s.wait := by
  unfold startTimer
  split_ifs <;> rfl

theorem rtThreadSuspend_wait (s : Core κ) (t : Thread) : (rtThreadSuspend s t).wait = s.wait := by
  unfold rtThreadSuspend
  split_ifs <;> rfl

section Asleep

variable [DecidableEq κ]

def asleep (s : Core κ) (k : κ) (flag : IpcFlag) (t : Thread) (time : ℤ) : Core κ :=
  startTimer (rtIpcListSuspend s k flag t) t time

variable {flag : IpcFlag} {time : ℤ}

theorem asleep_wait_self (s : Core κ) (k : κ) (flag : IpcFlag) (t : Thread) (time : ℤ) :
    (asleep s k flag t time).wait k = enqueue s.priority flag t (s.wait k) := by
  have hpriority : (rtThreadSuspend s t).priority = s.priority := by
    funext u
    unfold rtThreadSuspend
    split_ifs
    · rfl
    · by_cases hut : u = t
      · simp [hut, Core.setThread, Core.priority]
      · simp [hut, Core.setThread, Core.priority]
  unfold asleep rtIpcListSuspend
  rw [startTimer_wait]
  simp only [Core.setWait, rtThreadSuspend_wait, update_self, hpriority]

theorem asleep_wait (s : Core κ) (k : κ) (flag : IpcFlag) (t : Thread) (time : ℤ) :
    ((asleep s k flag t time).wait k).Perm (t :: s.wait k) ∧
      ∀ l, l ≠ k → (asleep s k flag t time).wait l = s.wait l := by
  constructor
  · rw [asleep_wait_self]
    exact enqueue_perm _ flag t _
  · intro l hlk
    unfold asleep rtIpcListSuspend
    rw [startTimer_wait]
    simp only [Core.setWait, rtThreadSuspend_wait, update_of_ne hlk]

theorem asleep_threads (k : κ) (flag : IpcFlag) (time : ℤ) (hready : (s.threads t).stat = .ready) :
    ((asleep s k flag t time).threads t).stat = .suspend ∧
      ((asleep s k flag t time).threads t).error = (s.threads t).error ∧
      ((asleep s k flag t time).threads t).currentPriority = (s.threads t).currentPriority ∧
      ∀ u, u ≠ t → (asleep s k flag t time).threads u = s.threads u := by
  have hsuspend : rtThreadSuspend s t = s.setThread t { s.threads t with stat := .suspend } := by
    unfold rtThreadSuspend
    rw [if_neg (by simp [hready])]
  by_cases htime : 0 < time
  · simp +contextual [asleep, startTimer, rtIpcListSuspend, hsuspend, htime,
      Core.setThread, Core.setWait]
  · simp +contextual [asleep, startTimer, rtIpcListSuspend, hsuspend, htime,
      Core.setThread, Core.setWait]

theorem asleep_priority (k : κ) (flag : IpcFlag) (time : ℤ) (hready : (s.threads t).stat = .ready) :
    (asleep s k flag t time).priority u = s.priority u := by
  rcases asleep_threads k flag time hready with ⟨-, -, hpriority, hother⟩
  by_cases hut : u = t
  · rw [hut]
    exact hpriority
  · simp only [Core.priority, hother u hut]

theorem Linked.asleep (hlinked : Linked s) (hready : (s.threads t).stat = .ready) :
    Linked (asleep s k flag t time) := by
  rcases asleep_wait s k flag t time with ⟨hperm, hwait⟩
  rcases asleep_threads k flag time hready with ⟨hstat, -, -, hother⟩
  have hnot : ∀ l, t ∉ s.wait l := fun l => hlinked.not_mem_of_ready hready
  have hmem : ∀ l u, u ∈ (Ipc.asleep s k flag t time).wait l → (u = t ∧ l = k) ∨ u ∈ s.wait l := by
    intro l u hu
    by_cases hlk : l = k
    · rw [hlk, hperm.mem_iff, mem_cons] at hu
      rw [hlk]
      exact hu.imp (fun hut => ⟨hut, rfl⟩) id
    · rw [hwait l hlk] at hu
      exact .inr hu
  constructor
  · intro l
    by_cases hlk : l = k
    · rw [hlk, hperm.nodup_iff]
      exact nodup_cons.mpr ⟨hnot k, hlinked.nodup k⟩
    · rw [hwait l hlk]
      exact hlinked.nodup l
  · intro l l' u hl hl'
    rcases hmem l u hl with ⟨hut, hlk⟩ | hold
    · rcases hmem l' u hl' with ⟨-, hlk'⟩ | hold'
      · rw [hlk, hlk']
      · rw [hut] at hold'
        exact absurd hold' (hnot l')
    · rcases hmem l' u hl' with ⟨hut, -⟩ | hold'
      · rw [hut] at hold
        exact absurd hold (hnot l)
      · exact hlinked.unique l l' u hold hold'
  · intro l u hu
    by_cases hut : u = t
    · rw [hut]
      exact hstat
    · rw [hother u hut]
      exact hlinked.suspended l u ((hmem l u hu).resolve_left (fun h => hut h.1))
  · intro u htimer
    by_cases hut : u = t
    · rw [hut]
      exact hstat
    · rw [hother u hut] at htimer ⊢
      exact hlinked.timer u htimer

end Asleep

theorem Linked.rtIpcListResumeAll {fuel : ℕ} (hlinked : Linked s)
    (hfuel : (s.wait k).length ≤ fuel) :
    ∃ s', rtIpcListResumeAll k fuel s = some s' ∧ Linked s' ∧ s'.wait k = [] ∧
      (∀ t ∈ s.wait k, (s'.threads t).stat = .ready ∧ (s'.threads t).error = .error) ∧
      ∀ t, t ∉ s.wait k → s'.threads t = s.threads t := by
  induction fuel generalizing s with
  | zero =>
    have hnil : s.wait k = [] := eq_nil_of_length_eq_zero (Nat.le_zero.mp hfuel)
    refine ⟨s, if_pos hnil, hlinked, hnil, ?_, fun _ _ => rfl⟩
    rw [hnil]
    simp
  | succ fuel ih =>
    rw [Ipc.rtIpcListResumeAll]
    cases hlist : s.wait k with
    | nil =>
      refine ⟨s, rfl, hlinked, hlist, ?_, fun _ _ => rfl⟩
      simp
    | cons t rest =>
      have hmem : t ∈ s.wait k := by simp [hlist]
      have hrest : (Ipc.woken s t .error).wait k = rest := by
        rw [woken_wait, hlist, erase_cons_head]
      have hnodup := hlinked.nodup k
      rw [hlist, nodup_cons] at hnodup
      simp only [hlinked.rtThreadResume_setError hmem]
      rcases ih (hlinked.woken t .error) (by rw [hrest]; rw [hlist] at hfuel; simpa using hfuel)
        with ⟨s', hall, hlinked', hnil, hready, hsame⟩
      rw [hrest] at hready hsame
      refine ⟨s', hall, hlinked', hnil, ?_, ?_⟩
      · intro u hu
        by_cases hurest : u ∈ rest
        · exact hready u hurest
        · have hut : u = t := (mem_cons.mp hu).resolve_right hurest
          rw [hsame u hurest, hut, woken_self]
          exact ⟨rfl, rfl⟩
      · intro u hu
        rw [mem_cons, not_or] at hu
        rw [hsame u hu.2, woken_of_ne hu.1]

end RtThread.Ipc
