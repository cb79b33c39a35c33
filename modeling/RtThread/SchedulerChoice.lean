import RtThread.SchedulerModel

/-!
# The thread which is scheduled

Every sequence of insertions, removals and priority changes leads the lists and
the bitmap along with the abstract ready queue, whatever the number of priorities
is, so that bitmaps of one and of two levels choose the same thread.
-/

namespace RtThread.Scheduler

open List Option Bitmap

inductive Action where
  | insert (t : Thread)
  | remove (t : Thread)
  | control (t : Thread) (priority : ℕ)

def execute (n : ℕ) (s : SchedState) : Action → Option SchedState
  | .insert t => rtScheduleInsertThread n s t
  | .remove t => rtScheduleRemoveThread n s t
  | .control t priority => rtThreadControl n s t priority

/-- A thread is inserted when it is not ready, and only a ready thread gets another
priority, which is one of the `n` priorities. -/
def ReadyQueue.step (n : ℕ) (q : ReadyQueue) : Action → Option ReadyQueue
  | .insert t => if t ∈ q.ready then none else some (q.insert t)
  | .remove t => some (q.remove t)
  | .control t priority =>
    if t ∈ q.ready ∧ priority < n then
      some (((q.remove t).setPriority t priority).insert t)
    else none

def ReadyQueue.run (n : ℕ) (q : ReadyQueue) (actions : List Action) : Option ReadyQueue :=
  actions.foldlM (ReadyQueue.step n) q

def run (n : ℕ) (s : SchedState) (actions : List Action) : Option SchedState :=
  actions.foldlM (execute n) s

structure SchedulerInit (n : ℕ) (priority : Thread → ℕ) (s : SchedState) : Prop where
  queue : ∀ p, s.queue p = []
  group : s.bits.group = 0
  table : ∀ i, s.bits.table i = 0
  current : ∀ t, (s.threads t).currentPriority = priority t
  priority_lt : ∀ t, priority t < n
  masks : ∀ t, (s.threads t).masks = masksOf n (priority t)

/-- The kernel state shows the abstract ready queue. -/
structure Follows (n : ℕ) (s : SchedState) (q : ReadyQueue) : Prop where
  refines : Refines n s q
  masks : ∀ t, (s.threads t).masks = masksOf n (q.priority t) ∧ q.priority t < n
  stat : ∀ t ∈ q.ready, (s.threads t).stat = .ready

variable {n m : ℕ} {s r : SchedState} {q q' : ReadyQueue} {action : Action}
  {actions : List Action} {priority : Thread → ℕ}

namespace Follows

theorem of_init (hinit : SchedulerInit n priority s) : Follows n s ⟨[], priority⟩ := by
  refine ⟨⟨nodup_nil, ?_, hinit.current, ?_, ?_⟩, ?_, ?_⟩
  · intro p
    rw [hinit.queue]
    rfl
  · exact nofun
  · apply (represents_empty hinit.group hinit.table).congr
    intro p
    simp [hinit.queue]
  · exact fun t => ⟨hinit.masks t, hinit.priority_lt t⟩
  · exact nofun

theorem step (hn : n ≤ 256) (hfollows : Follows n s q) (hstep : q.step n action = some q') :
    ∃ s', execute n s action = some s' ∧ Follows n s' q' := by
  cases action with
  | insert t =>
    simp only [ReadyQueue.step] at hstep
    split_ifs at hstep with hmem
    rw [← some.inj hstep]
    rcases hfollows.refines.insert hn hmem (hfollows.masks t).1 (hfollows.masks t).2
      with ⟨s', hinsert, href, hthreads⟩
    refine ⟨s', hinsert, href, ?_, ?_⟩
    · intro u
      rw [hthreads]
      by_cases hut : u = t
      · simpa [hut, ReadyQueue.insert] using hfollows.masks t
      · simpa [hut, ReadyQueue.insert] using hfollows.masks u
    · intro u hu
      rw [hthreads]
      by_cases hut : u = t
      · simp [hut]
      · have hold : u ∈ q.ready := by simpa [ReadyQueue.insert, hut] using hu
        simpa [hut] using hfollows.stat u hold
  | remove t =>
    rw [← some.inj hstep]
    rcases hfollows.refines.remove hn (hfollows.masks t).1 (hfollows.masks t).2
      with ⟨s', hremove, href, hthreads⟩
    refine ⟨s', hremove, href, ?_, ?_⟩
    · rw [hthreads]
      exact hfollows.masks
    · intro u hu
      rw [hthreads]
      exact hfollows.stat u (mem_of_mem_erase hu)
  | control t p =>
    simp only [ReadyQueue.step] at hstep
    split_ifs at hstep with hmet
    rw [← some.inj hstep]
    rcases hfollows.refines.control hn (hfollows.stat t hmet.1) hmet.1 hmet.2
      with ⟨s', hcontrol, href, hthreads⟩
    refine ⟨s', hcontrol, href, ?_, ?_⟩
    · intro u
      rw [hthreads]
      by_cases hut : u = t
      · simp [hut, ReadyQueue.insert, ReadyQueue.setPriority, hmet.2]
      · simpa [hut, ReadyQueue.insert, ReadyQueue.setPriority, ReadyQueue.remove]
          using hfollows.masks u
    · intro u hu
      rw [hthreads]
      by_cases hut : u = t
      · simpa [hut] using hfollows.stat t hmet.1
      · have hold : u ∈ q.ready.erase t := by
          simpa [ReadyQueue.insert, ReadyQueue.setPriority, ReadyQueue.remove, hut] using hu
        simpa [hut] using hfollows.stat u (mem_of_mem_erase hold)

theorem run (hn : n ≤ 256) (hfollows : Follows n s q) (hrun : q.run n actions = some q') :
    ∃ s', run n s actions = some s' ∧ Follows n s' q' := by
  induction actions generalizing s q with
  | nil => exact ⟨s, rfl, some.inj hrun ▸ hfollows⟩
  | cons action actions ih =>
    unfold ReadyQueue.run at hrun
    rw [foldlM_cons] at hrun
    rcases bind_eq_some_iff.mp hrun with ⟨next, hstep, hrest⟩
    rcases hfollows.step hn hstep with ⟨s₁, hexecute, hfollows₁⟩
    rcases ih hfollows₁ hrest with ⟨s', hrun', hfollows'⟩
    refine ⟨s', ?_, hfollows'⟩
    unfold run at hrun' ⊢
    rw [foldlM_cons, hexecute]
    exact hrun'

end Follows

/-- The abstract run does not depend on the number of priorities. -/
theorem ReadyQueue.run_unique (hn : q.run n actions = some q') {r' : ReadyQueue}
    (hm : q.run m actions = some r') : q' = r' := by
  induction actions generalizing q with
  | nil => exact some.inj (hn.symm.trans hm)
  | cons action actions ih =>
    unfold ReadyQueue.run at hn hm
    rw [foldlM_cons] at hn hm
    rcases bind_eq_some_iff.mp hn with ⟨a, hstepn, hrestn⟩
    rcases bind_eq_some_iff.mp hm with ⟨b, hstepm, hrestm⟩
    have hsame : a = b := by
      cases action with
      | insert t | remove t => exact some.inj (hstepn.symm.trans hstepm)
      | control t p =>
        simp only [ReadyQueue.step] at hstepn hstepm
        split_ifs at hstepn
        split_ifs at hstepm
        exact some.inj (hstepn.symm.trans hstepm)
    rw [hsame] at hrestn
    exact ih hrestn hrestm

/-- After every sequence of calls `rt_schedule` runs the thread which has been ready
longest among the most urgent ones, and with another number of priorities the same
sequence leads to the same thread. -/
theorem rtSchedule_most_urgent (hn : n ≤ 256) (hm : m ≤ 256) (hs : SchedulerInit n priority s)
    (hr : SchedulerInit m priority r) (hrunn : ReadyQueue.run n ⟨[], priority⟩ actions = some q)
    (hrunm : ReadyQueue.run m ⟨[], priority⟩ actions = some q') (hne : q.ready ≠ [])
    (current : Thread) : ∃ s' r' t, run n s actions = some s' ∧ run m r actions = some r' ∧
      rtSchedule n 0 s' current = some t ∧ q.IsChoice t ∧ rtSchedule m 0 r' current = some t := by
  rcases (Follows.of_init hs).run hn hrunn with ⟨s', hs', hfollows⟩
  rcases (Follows.of_init hr).run hm hrunm with ⟨r', hr', hfollows'⟩
  have hsame := ReadyQueue.run_unique hrunn hrunm
  rw [← hsame] at hfollows'
  rcases hfollows.refines.rtSchedule hne current with ⟨t, ht, hchoice⟩
  rcases hfollows'.refines.rtSchedule hne current with ⟨u, hu, hchoice'⟩
  rw [hchoice'.unique hchoice] at hu
  exact ⟨s', r', t, hs', hr', ht, hchoice, hu⟩

def sampleInit (n : ℕ) : SchedState where
  threads := fun t => ⟨.init, t.val.toNat % 32, t.val.toNat % 32, masksOf n (t.val.toNat % 32)⟩
  queue := fun _ => []
  bits := ⟨0, fun _ => 0⟩

theorem schedulerInit_sampleInit (hn : 32 ≤ n) :
    SchedulerInit n (fun t => t.val.toNat % 32) (sampleInit n) :=
  ⟨fun _ => rfl, rfl, fun _ => rfl, fun _ => rfl,
    fun _ => (Nat.mod_lt _ (by decide)).trans_le hn, fun _ => rfl⟩

/-- Three threads of priority 31 become ready; the first one goes, and the last one
is given priority 9. -/
def sampleActions : List Action :=
  [.insert ⟨31, by decide⟩, .insert ⟨63, by decide⟩, .insert ⟨95, by decide⟩,
    .remove ⟨31, by decide⟩, .control ⟨95, by decide⟩ 9]

theorem rtSchedule_most_urgent_in_sample :
    ∃ s' r' t, run 32 (sampleInit 32) sampleActions = some s' ∧
      run 256 (sampleInit 256) sampleActions = some r' ∧
      rtSchedule 32 0 s' ⟨1, by decide⟩ = some t ∧ ReadyQueue.IsChoice
        ⟨[⟨63, by decide⟩, ⟨95, by decide⟩],
          Function.update (fun t => t.val.toNat % 32) ⟨95, by decide⟩ 9⟩ t ∧
      rtSchedule 256 0 r' ⟨1, by decide⟩ = some t := by
  have hrun : ∀ n, 9 < n → ReadyQueue.run n ⟨[], fun t => t.val.toNat % 32⟩ sampleActions =
      some ⟨[⟨63, by decide⟩, ⟨95, by decide⟩],
        Function.update (fun t => t.val.toNat % 32) ⟨95, by decide⟩ 9⟩ := by
    intro n hn
    simp [sampleActions, ReadyQueue.run, ReadyQueue.step, ReadyQueue.insert, ReadyQueue.remove,
      ReadyQueue.setPriority, hn]
  exact rtSchedule_most_urgent (by decide) (by decide) (schedulerInit_sampleInit le_rfl)
    (schedulerInit_sampleInit (by decide)) (hrun 32 (by decide)) (hrun 256 (by decide))
    (by simp) _

end RtThread.Scheduler
