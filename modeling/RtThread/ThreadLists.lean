import RtThread.IpcModel
import RtThread.GuardedRun

/-!
# The lists a thread is in

The node of a thread serves the ready queues and the lists of waiting threads.  The
sections between disabling and enabling interrupts are the steps here, so that
`rt_thread_suspend`, `rt_thread_resume` and `rt_ipc_list_resume_all`, which test
before they disable interrupts, take several of them.  The operations of kernel
objects disable interrupts around all of it and are one step each.
-/

namespace RtThread.ThreadLists

open Function List Option ThreadLists

open Ipc (IpcFlag enqueue enqueue_perm)

variable {κ : Type}

structure ThreadBlock where
  stat : ThreadStat
  currentPriority : ℕ

/-- The ready queues and lists of waiting threads.  The counters say how many calls
are between two of their sections: behind the test of `rt_thread_suspend`, behind the
test and behind the first section of `rt_thread_resume`, and behind the test of the
loop in `rt_ipc_list_resume_all`. -/
structure ListState (κ : Type) where
  threads : Thread → ThreadBlock
  queue : ℕ → List Thread
  wait : κ → List Thread
  suspending : Thread → ℕ
  resuming : Thread → ℕ
  unlinked : Thread → ℕ
  draining : κ → ℕ

namespace ListState

def setThread (s : ListState κ) (t : Thread) (b : ThreadBlock) : ListState κ :=
  { s with threads := update s.threads t b }

def rtListRemove (s : ListState κ) (t : Thread) : ListState κ :=
  { s with
    queue := fun p => (s.queue p).erase t
    wait := fun k => (s.wait k).erase t }

end ListState

def insertThread (s : ListState κ) (t : Thread) : ListState κ :=
  let p := (s.threads t).currentPriority
  { s.setThread t { s.threads t with stat := .ready } with
    queue := update s.queue p (s.queue p ++ [t]) }

def suspendSection (s : ListState κ) (t : Thread) : ListState κ :=
  (s.setThread t { s.threads t with stat := .suspend }).rtListRemove t

def resumeAtOnce (s : ListState κ) (t : Thread) : ListState κ :=
  if (s.threads t).stat ≠ .suspend then s else insertThread (s.rtListRemove t) t

def changePriority (s : ListState κ) (t : Thread) (priority : ℕ) : ListState κ :=
  if (s.threads t).stat = .ready then
    let s := s.rtListRemove t
    insertThread (s.setThread t { s.threads t with currentPriority := priority }) t
  else s.setThread t { s.threads t with currentPriority := priority }

inductive Action (κ : Type) where
  | suspendTest (t : Thread)
  | suspendSection (t : Thread)
  | resumeTest (t : Thread)
  | resumeUnlink (t : Thread)
  | resumeInsert (t : Thread)
  | block (t : Thread) (k : κ)
  | wake (t : Thread)
  | drainTest (k : κ)
  | drainResume (k : κ)
  | timeout (t : Thread)
  | changePriority (t : Thread) (priority : ℕ)

def Unlinked (s : ListState κ) (t : Thread) : Prop :=
  (∀ p, t ∉ s.queue p) ∧ ∀ k, t ∉ s.wait k

/-- A test which fails ends the call and is no step.  A thread which blocks is
running, and may have suspended itself before. -/
def Action.Enabled (s : ListState κ) : Action κ → Prop
  | .suspendTest t => (s.threads t).stat = .ready
  | .suspendSection t => 0 < s.suspending t
  | .resumeTest t => (s.threads t).stat = .suspend
  | .resumeUnlink t => 0 < s.resuming t
  | .resumeInsert t => 0 < s.unlinked t
  | .block t _ => (s.threads t).stat = .ready ∨ Unlinked s t
  | .wake _ => True
  | .drainTest k => s.wait k ≠ []
  | .drainResume k => 0 < s.draining k
  | .timeout t => (s.threads t).stat = .suspend
  | .changePriority _ _ => True

variable [DecidableEq κ]

def rtIpcListSuspend (flags : κ → IpcFlag) (s : ListState κ) (t : Thread) (k : κ) :
    ListState κ :=
  let s := if (s.threads t).stat = .ready then suspendSection s t else s
  { s with
    wait := update s.wait k
      (enqueue (fun u => (s.threads u).currentPriority) (flags k) t (s.wait k)) }

/-- One section; `none` when the head of an empty list is taken for a thread. -/
def execute (flags : κ → IpcFlag) (s : ListState κ) : Action κ → Option (ListState κ)
  | .suspendTest t =>
    some { s with suspending := update s.suspending t (s.suspending t + 1) }
  | .suspendSection t =>
    some { suspendSection s t with
      suspending := update s.suspending t (s.suspending t - 1) }
  | .resumeTest t =>
    some { s with resuming := update s.resuming t (s.resuming t + 1) }
  | .resumeUnlink t =>
    some { s.rtListRemove t with
      resuming := update s.resuming t (s.resuming t - 1)
      unlinked := update s.unlinked t (s.unlinked t + 1) }
  | .resumeInsert t =>
    some { insertThread s t with
      unlinked := update s.unlinked t (s.unlinked t - 1) }
  | .block t k => some (rtIpcListSuspend flags s t k)
  | .wake t => some (resumeAtOnce s t)
  | .drainTest k =>
    some { s with draining := update s.draining k (s.draining k + 1) }
  | .drainResume k =>
    match s.wait k with
    | [] => none
    | t :: _ =>
      some { resumeAtOnce s t with
        draining := update s.draining k (s.draining k - 1) }
  | .timeout t => some (insertThread (s.rtListRemove t) t)
  | .changePriority t priority => some (changePriority s t priority)

/-- Every started thread is in the ready queue of its priority or suspended, and
nobody waits or is inside a call. -/
def listSystem (flags : κ → IpcFlag) : TransitionSystem (ListState κ) (Action κ) where
  init s := (∀ p, (s.queue p).Nodup) ∧ (∀ p t, t ∈ s.queue p ↔
      (s.threads t).stat = .ready ∧ (s.threads t).currentPriority = p) ∧
    (∀ k, s.wait k = []) ∧
    (∀ t, s.suspending t = 0 ∧ s.resuming t = 0 ∧ s.unlinked t = 0) ∧
    ∀ k, s.draining k = 0
  step s action s' := action.Enabled s ∧ execute flags s action = some s'

/-- `t` is linked once and where its state says. -/
structure Placed (s : ListState κ) (t : Thread) : Prop where
  queue_once : ∀ p, (s.queue p).count t ≤ 1
  wait_once : ∀ k, (s.wait k).count t ≤ 1
  queue_unique : ∀ p r, t ∈ s.queue p → t ∈ s.queue r → p = r
  wait_unique : ∀ k l, t ∈ s.wait k → t ∈ s.wait l → k = l
  disjoint : ∀ p k, t ∈ s.queue p → t ∉ s.wait k
  ready : (s.threads t).stat = .ready → t ∈ s.queue (s.threads t).currentPriority
  suspended : (s.threads t).stat = .suspend → ∀ p, t ∉ s.queue p

/-- Every thread is in at most one list, the ready ones in the ready queue of their
priority, the suspended ones in no ready queue. -/
def OneList (s : ListState κ) : Prop := ∀ t, Placed s t

/-- `rt_thread_resume` unlinks a thread while it is not ready, and inserts it while it is
in no list; `rt_ipc_list_resume_all` resumes from a list which is not empty. -/
def Undisturbed (s : ListState κ) : Action κ → Prop
  | .resumeUnlink t => (s.threads t).stat ≠ .ready
  | .resumeInsert t => Unlinked s t
  | .drainResume k => s.wait k ≠ []
  | _ => True

section Steps

omit [DecidableEq κ]

variable {s s' : ListState κ} {t u : Thread}

theorem suspend_of_not_ready {stat : ThreadStat} (hnot : stat ≠ .ready) : stat = .suspend := by
  cases stat with
  | ready => exact absurd rfl hnot
  | suspend => rfl

theorem Placed.congr (hplaced : Placed s u)
    (hqueue : ∀ p, (s'.queue p).count u = (s.queue p).count u)
    (hwait : ∀ k, (s'.wait k).count u = (s.wait k).count u) (hthread : s'.threads u = s.threads u) :
    Placed s' u := by
  have hmemQueue : ∀ p, u ∈ s'.queue p ↔ u ∈ s.queue p := by
    intro p
    rw [← count_pos_iff, ← count_pos_iff, hqueue]
  have hmemWait : ∀ k, u ∈ s'.wait k ↔ u ∈ s.wait k := by
    intro k
    rw [← count_pos_iff, ← count_pos_iff, hwait]
  constructor
  · intro p
    rw [hqueue]
    exact hplaced.queue_once p
  · intro k
    rw [hwait]
    exact hplaced.wait_once k
  · intro p r hp hr
    exact hplaced.queue_unique p r ((hmemQueue p).mp hp) ((hmemQueue r).mp hr)
  · intro k l hk hl
    exact hplaced.wait_unique k l ((hmemWait k).mp hk) ((hmemWait l).mp hl)
  · intro p k hp hk
    exact hplaced.disjoint p k ((hmemQueue p).mp hp) ((hmemWait k).mp hk)
  · rw [hthread, hmemQueue]
    exact hplaced.ready
  · rw [hthread]
    exact fun hstat p hp => hplaced.suspended hstat p ((hmemQueue p).mp hp)

structure OneListExcept (s : ListState κ) (t : Thread) : Prop where
  others : ∀ u, u ≠ t → Placed s u
  unlinked : Unlinked s t

theorem OneList.except (hone : OneList s) (hunlinked : Unlinked s t) : OneListExcept s t :=
  ⟨fun u _ => hone u, hunlinked⟩

theorem OneList.rtListRemove (hone : OneList s) (t : Thread) :
    OneListExcept (s.rtListRemove t) t := by
  have hnot : ∀ l : List Thread, l.count t ≤ 1 → t ∉ l.erase t := by
    intro l hcount hmem
    rw [← count_pos_iff, count_erase_self] at hmem
    omega
  refine ⟨?_, fun p => hnot _ ((hone t).queue_once p), fun k => hnot _ ((hone t).wait_once k)⟩
  intro u hut
  apply (hone u).congr
  · intro p
    exact count_erase_of_ne hut
  · intro k
    exact count_erase_of_ne hut
  · rfl

theorem OneListExcept.setThread (hexcept : OneListExcept s t) (b : ThreadBlock) :
    OneListExcept (s.setThread t b) t := by
  refine ⟨fun u hut => ?_, hexcept.unlinked⟩
  apply (hexcept.others u hut).congr
  · exact fun _ => rfl
  · exact fun _ => rfl
  · exact update_of_ne hut _ _

theorem OneListExcept.oneList (hexcept : OneListExcept s t)
    (hsuspend : (s.threads t).stat = .suspend) :
    OneList s := by
  intro u
  by_cases hut : u = t
  · subst hut
    rcases hexcept.unlinked with ⟨hqueue, hwait⟩
    constructor
    · intro p
      rw [count_eq_zero_of_not_mem (hqueue p)]
      omega
    · intro k
      rw [count_eq_zero_of_not_mem (hwait k)]
      omega
    · exact fun p r hp => absurd hp (hqueue p)
    · exact fun k l hk => absurd hk (hwait k)
    · exact fun p k hp => absurd hp (hqueue p)
    · intro hready
      rw [hsuspend] at hready
      exact absurd hready (by decide)
    · exact fun _ => hqueue
  · exact hexcept.others u hut

theorem OneListExcept.insertThread (hexcept : OneListExcept s t) : OneList (insertThread s t) := by
  rcases hexcept.unlinked with ⟨hqueue, hwait⟩
  intro u
  by_cases hut : u = t
  · subst hut
    have hmem : ∀ p, u ∈ (insertThread s u).queue p ↔
        p = (s.threads u).currentPriority := by
      intro p
      by_cases hp : p = (s.threads u).currentPriority
      · simp [insertThread, hp]
      · simp [insertThread, hp, hqueue p]
    constructor
    · intro p
      by_cases hp : p = (s.threads u).currentPriority
      · subst hp
        simp [insertThread, count_eq_zero_of_not_mem (hqueue _)]
      · simp [insertThread, hp, count_eq_zero_of_not_mem (hqueue p)]
    · intro k
      change (s.wait k).count u ≤ 1
      rw [count_eq_zero_of_not_mem (hwait k)]
      omega
    · intro p r hp hr
      rw [(hmem p).mp hp, (hmem r).mp hr]
    · exact fun k l hk => absurd hk (hwait k)
    · exact fun p k _ => hwait k
    · intro _
      rw [hmem]
      simp [insertThread, ListState.setThread]
    · intro hsuspend
      simp [insertThread, ListState.setThread] at hsuspend
  · apply (hexcept.others u hut).congr
    · intro p
      by_cases hp : p = (s.threads t).currentPriority
      · subst hp
        simp [ThreadLists.insertThread, count_append, Ne.symm hut]
      · simp [ThreadLists.insertThread, hp]
    · exact fun _ => rfl
    · exact update_of_ne hut _ _

theorem OneList.of_lists (hone : OneList s) (hthreads : s'.threads = s.threads)
    (hqueue : s'.queue = s.queue) (hwait : s'.wait = s.wait) : OneList s' := by
  intro u
  apply (hone u).congr
  · exact fun p => by rw [hqueue]
  · exact fun k => by rw [hwait]
  · rw [hthreads]

theorem OneList.suspendSection (hone : OneList s) (t : Thread) :
    OneListExcept (suspendSection s t) t ∧
      ((ThreadLists.suspendSection s t).threads t).stat = .suspend := by
  constructor
  · exact (hone.rtListRemove t).setThread { s.threads t with stat := .suspend }
  · simp [ThreadLists.suspendSection, ListState.setThread, ListState.rtListRemove]

theorem OneList.resumeAtOnce (hone : OneList s) (t : Thread) : OneList (resumeAtOnce s t) := by
  unfold ThreadLists.resumeAtOnce
  split_ifs
  · exact hone
  · exact (hone.rtListRemove t).insertThread

theorem OneList.changePriority (hone : OneList s) (t : Thread) (p : ℕ) :
    OneList (changePriority s t p) := by
  unfold ThreadLists.changePriority
  split_ifs with hready
  · exact ((hone.rtListRemove t).setThread _).insertThread
  · have hsuspend := suspend_of_not_ready hready
    intro u
    by_cases hut : u = t
    · -- the priority of a suspended thread says nothing about the lists
      subst hut
      have hplaced := hone u
      refine ⟨hplaced.queue_once, hplaced.wait_once, hplaced.queue_unique, hplaced.wait_unique,
        hplaced.disjoint, ?_, fun _ => hplaced.suspended hsuspend⟩
      intro hready'
      simp [ListState.setThread, hsuspend] at hready'
    · apply (hone u).congr
      · exact fun _ => rfl
      · exact fun _ => rfl
      · exact update_of_ne hut _ _

end Steps

variable {flags : κ → IpcFlag} {s s' : ListState κ} {t u : Thread} {action : Action κ}

theorem OneListExcept.enqueue {k : κ} {l : List Thread} (hexcept : OneListExcept s t)
    (hsuspend : (s.threads t).stat = .suspend) (hperm : l.Perm (t :: s.wait k)) :
    OneList { s with wait := update s.wait k l } := by
  rcases hexcept.unlinked with ⟨hqueue, hwait⟩
  intro u
  by_cases hut : u = t
  · subst hut
    have hmem : ∀ j, u ∈ update s.wait k l j ↔ j = k := by
      intro j
      by_cases hj : j = k
      · subst hj
        simp [hperm.mem_iff]
      · simp [hj, hwait j]
    constructor
    · intro p
      change (s.queue p).count u ≤ 1
      rw [count_eq_zero_of_not_mem (hqueue p)]
      omega
    · intro j
      by_cases hj : j = k
      · subst hj
        simp [hperm.count_eq, count_eq_zero_of_not_mem (hwait j)]
      · simp [hj, count_eq_zero_of_not_mem (hwait j)]
    · exact fun p r hp => absurd hp (hqueue p)
    · intro i j hi hj
      rw [(hmem i).mp hi, (hmem j).mp hj]
    · exact fun p j hp => absurd hp (hqueue p)
    · intro hready
      rw [hsuspend] at hready
      exact absurd hready (by decide)
    · exact fun _ => hqueue
  · apply (hexcept.others u hut).congr
    · exact fun _ => rfl
    · intro j
      by_cases hj : j = k
      · subst hj
        simp [hperm.count_eq, Ne.symm hut]
      · simp [hj]
    · rfl

theorem OneList.rtIpcListSuspend {k : κ} (hone : OneList s)
    (hrunning : (s.threads t).stat = .ready ∨ Unlinked s t) :
    OneList (rtIpcListSuspend flags s t k) := by
  unfold ThreadLists.rtIpcListSuspend
  by_cases hready : (s.threads t).stat = .ready
  · simp only [if_pos hready]
    exact (hone.suspendSection t).1.enqueue (hone.suspendSection t).2 (enqueue_perm ..)
  · simp only [if_neg hready]
    exact (hone.except (hrunning.resolve_left hready)).enqueue (suspend_of_not_ready hready)
      (enqueue_perm ..)

/-- A step keeps every thread on one list exactly when it is undisturbed. -/
theorem oneList_step_iff (flags : κ → IpcFlag) (hone : OneList s) (henabled : action.Enabled s) :
    (∃ s', execute flags s action = some s' ∧ OneList s') ↔ Undisturbed s action := by
  cases action with
  | suspendTest t => exact iff_of_true ⟨_, rfl, hone.of_lists rfl rfl rfl⟩ trivial
  | suspendSection t =>
    have hsuspended := (hone.suspendSection t).1.oneList (hone.suspendSection t).2
    exact iff_of_true ⟨_, rfl, hsuspended.of_lists rfl rfl rfl⟩ trivial
  | resumeTest t => exact iff_of_true ⟨_, rfl, hone.of_lists rfl rfl rfl⟩ trivial
  | resumeUnlink t =>
    have hexcept := hone.rtListRemove t
    constructor
    · rintro ⟨s', hexecute, hone'⟩ hready
      rw [← some.inj hexecute] at hone'
      exact hexcept.unlinked.1 _ ((hone' t).ready hready)
    · intro hnot
      have hone' := hexcept.oneList (suspend_of_not_ready hnot)
      exact ⟨_, rfl, hone'.of_lists rfl rfl rfl⟩
  | resumeInsert t =>
    constructor
    · rintro ⟨s', hexecute, hone'⟩
      rw [← some.inj hexecute] at hone'
      have hplaced := hone' t
      have hmem : t ∈ (insertThread s t).queue (s.threads t).currentPriority := by
        simp [insertThread]
      have hnew : t ∉ s.queue (s.threads t).currentPriority := by
        intro hold
        have hcount := hplaced.queue_once (s.threads t).currentPriority
        have hpos := count_pos_iff.mpr hold
        simp only [insertThread, update_self, count_append,
          count_singleton_self] at hcount
        omega
      refine ⟨?_, fun k => hplaced.disjoint _ k hmem⟩
      intro p hp
      by_cases hpt : p = (s.threads t).currentPriority
      · exact hnew (hpt ▸ hp)
      · apply hpt
        apply hplaced.queue_unique p _ _ hmem
        simpa [insertThread, hpt] using hp
    · intro hunlinked
      exact ⟨_, rfl, (hone.except hunlinked).insertThread.of_lists rfl rfl rfl⟩
  | block t k => exact iff_of_true ⟨_, rfl, hone.rtIpcListSuspend henabled⟩ trivial
  | wake t => exact iff_of_true ⟨_, rfl, hone.resumeAtOnce t⟩ trivial
  | drainTest k => exact iff_of_true ⟨_, rfl, hone.of_lists rfl rfl rfl⟩ trivial
  | drainResume k =>
    simp only [execute, Undisturbed]
    cases hlist : s.wait k with
    | nil => simp
    | cons t rest =>
      exact iff_of_true ⟨_, rfl, (hone.resumeAtOnce t).of_lists rfl rfl rfl⟩ (by simp)
  | timeout t => exact iff_of_true ⟨_, rfl, (hone.rtListRemove t).insertThread⟩ trivial
  | changePriority t p => exact iff_of_true ⟨_, rfl, hone.changePriority t p⟩ trivial

/-- In every run in which no call is disturbed between its sections, every thread is in
at most one list; a section of a disturbed call ends this. -/
theorem oneList_of_undisturbed (flags : κ → IpcFlag)
    (hreach : (listSystem flags).Reachable Undisturbed s) : OneList s ∧
      ∀ action : Action κ, action.Enabled s →
        ((∃ s', execute flags s action = some s' ∧ OneList s') ↔ Undisturbed s action) := by
  have hone : OneList s := by
    apply hreach.invariant (P := fun s => OneList s)
    · rintro s ⟨hnodup, hmem, hwait, -, -⟩ t
      constructor
      · exact fun p => nodup_iff_count_le_one.mp (hnodup p) t
      · intro k
        rw [hwait]
        simp
      · intro p r hp hr
        rw [← ((hmem p t).mp hp).2, ← ((hmem r t).mp hr).2]
      · intro k l hk
        rw [hwait] at hk
        cases hk
      · intro p k _
        rw [hwait]
        exact not_mem_nil
      · exact fun hready => (hmem _ t).mpr ⟨hready, rfl⟩
      · intro hsuspend p hp
        rw [((hmem p t).mp hp).1] at hsuspend
        exact absurd hsuspend (by decide)
    · rintro s action s' hone hguard ⟨henabled, hexecute⟩
      rcases (oneList_step_iff flags hone henabled).mpr hguard with ⟨s'', hexecute', hone'⟩
      rw [hexecute'] at hexecute
      exact some.inj hexecute ▸ hone'
  exact ⟨hone, fun action henabled => oneList_step_iff flags hone henabled⟩

/-- A sufficient test for a step to be enabled, which leaves out threads that block after
suspending themselves. -/
def enabledTest (s : ListState κ) : Action κ → Bool
  | .suspendTest t => (s.threads t).stat = .ready
  | .suspendSection t => 0 < s.suspending t
  | .resumeTest t => (s.threads t).stat = .suspend
  | .resumeUnlink t => 0 < s.resuming t
  | .resumeInsert t => 0 < s.unlinked t
  | .block t _ => (s.threads t).stat = .ready
  | .wake _ => true
  | .drainTest k => s.wait k ≠ []
  | .drainResume k => 0 < s.draining k
  | .timeout t => (s.threads t).stat = .suspend
  | .changePriority _ _ => true

omit [DecidableEq κ] in
theorem enabled_of_enabledTest (htest : enabledTest s action = true) : action.Enabled s := by
  cases action with
  | block t k => exact .inl (of_decide_eq_true htest)
  | wake t | changePriority t p => trivial
  | _ => simpa [enabledTest, Action.Enabled] using htest

def sampleInit : ListState Unit where
  threads := fun t =>
    ⟨if t ∈ [firstThread, secondThread] then .ready else .suspend, 10⟩
  queue := fun p => if p = 10 then [firstThread, secondThread] else []
  wait := fun _ => []
  suspending := fun _ => 0
  resuming := fun _ => 0
  unlinked := fun _ => 0
  draining := fun _ => 0

def sampleRun (test : ListState Unit → Action Unit → Bool)
    (actions : List (Action Unit)) : Option (ListState Unit) :=
  actions.foldlM
    (fun s action =>
      if test s action = true ∧ enabledTest s action = true then
        execute (fun _ => .fifo) s action
      else none)
    sampleInit

theorem reachable_sampleRun {guard : ListState Unit → Action Unit → Prop}
    {test : ListState Unit → Action Unit → Bool} {actions : List (Action Unit)} {s : ListState Unit}
    (hsound : ∀ s action, test s action = true → guard s action)
    (hrun : sampleRun test actions = some s) : (listSystem (fun _ => .fifo)).Reachable guard s := by
  have hstart : (listSystem (fun _ : Unit => IpcFlag.fifo)).init sampleInit := by
    refine ⟨?_, ?_, fun _ => rfl, fun _ => ⟨rfl, rfl, rfl⟩, fun _ => rfl⟩
    · intro p
      have hne : firstThread ≠ secondThread := by decide
      by_cases hp : p = 10
      · simp [sampleInit, hp, hne]
      · simp [sampleInit, hp]
    · intro p t
      by_cases hp : p = 10
      · simp [sampleInit, hp, or_iff_not_imp_left]
      · simp [sampleInit, hp, Ne.symm hp]
  apply TransitionSystem.Reachable.foldlM _ (.start hstart) hrun
  intro s action s' hstep
  split_ifs at hstep with hmet
  exact ⟨hsound s action hmet.1, enabled_of_enabledTest hmet.2, hstep⟩

theorem oneList_in_sample :
    ∃ s, (listSystem (fun _ : Unit => .fifo)).Reachable Undisturbed s ∧
      s.wait () = [⟨1, by decide⟩] ∧ (s.threads ⟨2, by decide⟩).stat = .ready ∧
      OneList s := by
  have hrun : (sampleRun
      (fun _ action => match action with
        | .block _ _ | .suspendTest _ | .suspendSection _ | .resumeTest _ => true
        | _ => false)
      [.block ⟨1, by decide⟩ (), .suspendTest ⟨2, by decide⟩, .suspendSection ⟨2, by decide⟩,
        .resumeTest ⟨2, by decide⟩]).map
        (fun s => (s.wait (), (s.threads ⟨2, by decide⟩).stat, s.resuming ⟨2, by decide⟩)) =
        some ([⟨1, by decide⟩], .suspend, 1) := by decide
  rcases map_eq_some_iff.mp hrun with ⟨s, hs, hvalues⟩
  simp only [Prod.mk.injEq] at hvalues
  rcases hvalues with ⟨hwait, hstat, hresuming⟩
  have hreach : (listSystem (fun _ : Unit => .fifo)).Reachable Undisturbed s := by
    apply reachable_sampleRun _ hs
    intro s action htest
    cases action with
    | block t k | suspendTest t | suspendSection t | resumeTest t => trivial
    | _ => exact absurd htest (by simp)
  have hone := (oneList_of_undisturbed _ hreach).1
  -- the last two sections of `rt_thread_resume`
  have hunlink : (listSystem (fun _ : Unit => .fifo)).step s (.resumeUnlink ⟨2, by decide⟩)
      { s.rtListRemove ⟨2, by decide⟩ with
        resuming := update s.resuming ⟨2, by decide⟩ 0
        unlinked := update s.unlinked ⟨2, by decide⟩
          (s.unlinked ⟨2, by decide⟩ + 1) } := by
    refine ⟨by simp [Action.Enabled, hresuming], ?_⟩
    simp [execute, hresuming]
  have hreach' := hreach.next (by simp [Undisturbed, hstat]) hunlink
  have hfree := (hone.rtListRemove ⟨2, by decide⟩).unlinked
  have hinsert := hreach'.next (show Undisturbed _ (.resumeInsert ⟨2, by decide⟩) from hfree)
    ⟨by simp [Action.Enabled], rfl⟩
  refine ⟨_, hinsert, ?_, ?_, (oneList_of_undisturbed _ hinsert).1⟩
  · change (s.wait ()).erase ⟨2, by decide⟩ = _
    rw [hwait]
    decide
  · simp [insertThread, ListState.setThread]

/-- An interrupt handler resumes a thread while another `rt_thread_resume` of the same
thread is between its sections; the thread is put into the ready queue twice. -/
theorem resume_inserts_twice :
    ∃ s, (listSystem (fun _ : Unit => .fifo)).Reachable (fun _ _ => True) s ∧
      s.queue 10 = [⟨2, by decide⟩, ⟨1, by decide⟩, ⟨1, by decide⟩] ∧ ¬OneList s := by
  have hrun : (sampleRun (fun _ _ => true)
      [.block ⟨1, by decide⟩ (), .resumeTest ⟨1, by decide⟩, .resumeUnlink ⟨1, by decide⟩,
        .resumeTest ⟨1, by decide⟩, .resumeUnlink ⟨1, by decide⟩,
        .resumeInsert ⟨1, by decide⟩, .resumeInsert ⟨1, by decide⟩]).map
        (fun s => s.queue 10) =
        some [⟨2, by decide⟩, ⟨1, by decide⟩, ⟨1, by decide⟩] := by decide
  rcases map_eq_some_iff.mp hrun with ⟨s, hs, hqueue⟩
  refine ⟨s, reachable_sampleRun (fun _ _ _ => trivial) hs, hqueue, ?_⟩
  intro hone
  have hcount := (hone ⟨1, by decide⟩).queue_once 10
  rw [hqueue] at hcount
  exact absurd hcount (by decide)

end RtThread.ThreadLists
