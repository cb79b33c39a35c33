import RtThread.PriorityBitmap
import RtThread.KernelDefs

/-!
# The ready queues

One list of threads for every priority, and a bitmap of the lists which are not
empty.  What the scheduler is for is said by `ReadyQueue`: the ready threads in the
order in which they became ready, of which the first most urgent one is chosen.
-/

namespace RtThread.Scheduler

open Function List Bitmap

inductive Stat where
  | absent
  | init
  | ready
  | suspend
  | close
  deriving DecidableEq

structure ThreadBlock where
  stat : Stat
  initPriority : ℕ
  currentPriority : ℕ
  masks : Masks

structure SchedState where
  threads : Thread → ThreadBlock
  queue : ℕ → List Thread
  bits : ReadyBits

def SchedState.setThread (s : SchedState) (t : Thread) (b : ThreadBlock) : SchedState :=
  { s with threads := update s.threads t b }

def SchedState.unlink (s : SchedState) (t : Thread) : SchedState :=
  { s with queue := fun p => (s.queue p).erase t }

def OutsideTable (n : ℕ) (m : Masks) : Prop := 32 < n ∧ 32 ≤ m.number

instance (n : ℕ) (m : Masks) : Decidable (OutsideTable n m) :=
  inferInstanceAs (Decidable (_ ∧ _))

/-- `rt_schedule_insert_thread`; `none` is an access outside of the table. -/
def rtScheduleInsertThread (n : ℕ) (s : SchedState) (t : Thread) : Option SchedState :=
  let b := s.threads t
  if OutsideTable n b.masks then none
  else
    some
      { threads := update s.threads t { b with stat := .ready }
        queue := update s.queue b.currentPriority (s.queue b.currentPriority ++ [t])
        bits := s.bits.set n b.masks }

def rtScheduleRemoveThread (n : ℕ) (s : SchedState) (t : Thread) : Option SchedState :=
  let b := s.threads t
  let s := s.unlink t
  if s.queue b.currentPriority = [] then
    if OutsideTable n b.masks then none
    else some { s with bits := s.bits.clear n b.masks }
  else some s

def rtThreadControl (n : ℕ) (s : SchedState) (t : Thread) (priority : ℕ) :
    Option SchedState :=
  if (s.threads t).stat = .ready then
    (rtScheduleRemoveThread n s t).bind fun s =>
      rtScheduleInsertThread n (s.setThread t
          { s.threads t with currentPriority := priority, masks := masksOf n priority }) t
  else
    some (s.setThread t
      { s.threads t with currentPriority := priority, masks := masksOf n priority })

/-- The thread which runs after `rt_schedule`; `none` when the head of an empty list
is taken for a thread. -/
def rtSchedule (n lockNest : ℕ) (s : SchedState) (current : Thread) : Option Thread :=
  if lockNest = 0 then (s.queue (highestReadyPriority n s.bits)).head? else some current

structure ReadyQueue where
  ready : List Thread
  priority : Thread → ℕ

namespace ReadyQueue

def insert (q : ReadyQueue) (t : Thread) : ReadyQueue := { q with ready := q.ready ++ [t] }

def remove (q : ReadyQueue) (t : Thread) : ReadyQueue := { q with ready := q.ready.erase t }

def setPriority (q : ReadyQueue) (t : Thread) (priority : ℕ) : ReadyQueue :=
  { q with priority := update q.priority t priority }

/-- The first of the most urgent threads. -/
def IsChoice (q : ReadyQueue) (t : Thread) : Prop :=
  t ∈ q.ready ∧ (∀ u ∈ q.ready, q.priority t ≤ q.priority u) ∧
    q.ready.find? (fun u => q.priority u = q.priority t) = some t

theorem IsChoice.unique {q : ReadyQueue} {t u : Thread} (ht : q.IsChoice t) (hu : q.IsChoice u) :
    t = u := by
  have hsame : q.priority t = q.priority u := le_antisymm (ht.2.1 u hu.1) (hu.2.1 t ht.1)
  have hfind := ht.2.2
  rw [hsame, hu.2.2] at hfind
  exact (Option.some.inj hfind).symm

end ReadyQueue

/-- The queues and the bits hold the ready threads by priority. -/
structure Refines (n : ℕ) (s : SchedState) (q : ReadyQueue) : Prop where
  nodup : q.ready.Nodup
  queue : ∀ p, s.queue p = q.ready.filter (fun t => q.priority t = p)
  priority : ∀ t, (s.threads t).currentPriority = q.priority t
  masks : ∀ t ∈ q.ready, (s.threads t).masks = masksOf n (q.priority t) ∧ q.priority t < n
  bits : Represents n s.bits (fun p => s.queue p ≠ [])

section Refinement

variable {n : ℕ} {s s' : SchedState} {q : ReadyQueue} {t u : Thread} {p : ℕ}

theorem represents_empty (hgroup : s.bits.group = 0) (htable : ∀ i, s.bits.table i = 0) :
    Represents n s.bits (fun _ => False) := by
  refine ⟨fun _ h => h.elim, ?_, ?_, ?_⟩
  · intro _ p _
    simp [hgroup]
  · intro _ p _
    simp [htable]
  · intro _ g _
    simp [hgroup, htable]

theorem lt_capacity (hn : n ≤ 256) (hp : p < n) : p < capacity n := by
  unfold capacity
  split_ifs
  · omega
  · omega

theorem not_outsideTable (hn : n ≤ 256) (hp : p < n) : ¬OutsideTable n (masksOf n p) := by
  rintro ⟨htwo, hout⟩
  rw [masksOf_two htwo] at hout
  have hout : 32 ≤ p / 8 := hout
  omega

namespace Refines

theorem mem_queue_iff (href : Refines n s q) : t ∈ s.queue p ↔ t ∈ q.ready ∧ q.priority t = p := by
  rw [href.queue, mem_filter, decide_eq_true_eq]

theorem insert (hn : n ≤ 256) (href : Refines n s q) (hnot : t ∉ q.ready)
    (hmasks : (s.threads t).masks = masksOf n (q.priority t)) (hp : q.priority t < n) :
    ∃ s', rtScheduleInsertThread n s t = some s' ∧ Refines n s' (q.insert t) ∧
      s'.threads = update s.threads t { s.threads t with stat := .ready } := by
  have hpriority := href.priority t
  unfold rtScheduleInsertThread
  simp only [hmasks, if_neg (not_outsideTable hn hp)]
  refine ⟨_, rfl, ?_, rfl⟩
  have hqueue : ∀ p, update s.queue (s.threads t).currentPriority
      (s.queue (s.threads t).currentPriority ++ [t]) p =
        (q.insert t).ready.filter (fun u => q.priority u = p) := by
    intro p
    rw [ReadyQueue.insert, filter_append, ← href.queue]
    by_cases hpt : q.priority t = p
    · rw [hpriority, hpt, update_self]
      simp [hpt]
    · rw [hpriority, update_of_ne (Ne.symm hpt)]
      simp [hpt]
  constructor
  · exact nodup_append.mpr ⟨href.nodup, nodup_singleton t, by
      intro u hu v hv
      rw [mem_singleton] at hv
      exact fun h => hnot (hv ▸ h ▸ hu)⟩
  · exact hqueue
  · intro u
    by_cases hut : u = t
    · rw [hut]
      simpa [ReadyQueue.insert] using hpriority
    · simpa [ReadyQueue.insert, hut] using href.priority u
  · intro u hu
    by_cases hut : u = t
    · rw [hut]
      simp [ReadyQueue.insert, hp]
    · have hold : u ∈ q.ready := by simpa [ReadyQueue.insert, hut] using hu
      simpa [ReadyQueue.insert, hut] using href.masks u hold
  · apply (href.bits.set (lt_capacity hn hp)).congr
    intro r
    rw [hpriority]
    by_cases hrt : r = q.priority t
    · simp [hrt]
    · simp [hrt]

theorem unlink (href : Refines n s q) (t : Thread) (p : ℕ) :
    (s.unlink t).queue p = (q.remove t).ready.filter (fun u => q.priority u = p) := by
  change (s.queue p).erase t = (q.ready.erase t).filter _
  rw [href.queue, erase_filter]

theorem unlink_of_ne (href : Refines n s q) (hne : p ≠ q.priority t) :
    (s.unlink t).queue p = s.queue p := by
  apply erase_of_not_mem
  rw [href.mem_queue_iff]
  exact fun h => hne h.2.symm

theorem of_unlink {bits : ReadyBits} (href : Refines n s q)
    (hbits : Represents n bits (fun p => (s.unlink t).queue p ≠ [])) :
    Refines n { s.unlink t with bits := bits } (q.remove t) := by
  refine ⟨href.nodup.erase t, href.unlink t, href.priority, ?_, hbits⟩
  exact fun u hu => href.masks u (mem_of_mem_erase hu)

theorem remove (hn : n ≤ 256) (href : Refines n s q)
    (hmasks : (s.threads t).masks = masksOf n (q.priority t)) (hp : q.priority t < n) :
    ∃ s', rtScheduleRemoveThread n s t = some s' ∧ Refines n s' (q.remove t) ∧
      s'.threads = s.threads := by
  have hother : ∀ r, r ≠ q.priority t → (s.unlink t).queue r = s.queue r :=
    fun r hr => href.unlink_of_ne hr
  unfold rtScheduleRemoveThread
  simp only [hmasks, href.priority t, if_neg (not_outsideTable hn hp)]
  split_ifs with hempty
  · refine ⟨_, rfl, href.of_unlink ?_, rfl⟩
    apply (href.bits.clear (lt_capacity hn hp)).congr
    intro r
    by_cases hr : r = q.priority t
    · simp [hr, hempty]
    · simp [hr, hother r hr]
  · refine ⟨_, rfl, href.of_unlink ?_, rfl⟩
    apply href.bits.congr
    intro r
    by_cases hr : r = q.priority t
    · have hold : s.queue (q.priority t) ≠ [] := by
        intro hnil
        apply hempty
        change (s.queue (q.priority t)).erase t = []
        rw [hnil]
        rfl
      simp [hr, hempty, hold]
    · rw [hother r hr]

theorem setThread (href : Refines n s q) (hnot : t ∉ q.ready) (b : ThreadBlock) :
    Refines n (s.setThread t b) (q.setPriority t b.currentPriority) := by
  have hother : ∀ u ∈ q.ready, u ≠ t := fun u hu h => hnot (h ▸ hu)
  refine ⟨href.nodup, ?_, ?_, ?_, href.bits⟩
  · intro p
    change s.queue p = _
    rw [href.queue]
    apply filter_congr
    intro u hu
    simp [ReadyQueue.setPriority, hother u hu]
  · intro u
    by_cases hut : u = t
    · simp [hut, SchedState.setThread, ReadyQueue.setPriority]
    · simpa [hut, SchedState.setThread, ReadyQueue.setPriority] using href.priority u
  · intro u hu
    simpa [hother u hu, SchedState.setThread, ReadyQueue.setPriority] using href.masks u hu

theorem of_threads (href : Refines n s q) (hqueue : s'.queue = s.queue) (hbits : s'.bits = s.bits)
    (hpriority : ∀ t, (s'.threads t).currentPriority = (s.threads t).currentPriority)
    (hmasks : ∀ t ∈ q.ready, (s'.threads t).masks = (s.threads t).masks) : Refines n s' q := by
  refine ⟨href.nodup, ?_, ?_, ?_, ?_⟩
  · rw [hqueue]
    exact href.queue
  · intro t
    rw [hpriority]
    exact href.priority t
  · intro t ht
    rw [hmasks t ht]
    exact href.masks t ht
  · rw [hqueue, hbits]
    exact href.bits

theorem control (hn : n ≤ 256) (href : Refines n s q) (hready : (s.threads t).stat = .ready)
    (hmem : t ∈ q.ready) (hp : p < n) : ∃ s', rtThreadControl n s t p = some s' ∧
      Refines n s' (((q.remove t).setPriority t p).insert t) ∧
      s'.threads = update s.threads t
        { s.threads t with currentPriority := p, masks := masksOf n p } := by
  rcases href.masks t hmem with ⟨hmasks, hlt⟩
  rcases href.remove hn hmasks hlt with ⟨s₁, hremove, href₁, hthreads₁⟩
  have hnot : t ∉ (q.remove t).ready := href.nodup.not_mem_erase
  have href₂ := href₁.setThread hnot
    { s₁.threads t with currentPriority := p, masks := masksOf n p }
  rcases href₂.insert hn hnot (by simp [SchedState.setThread, ReadyQueue.setPriority])
    (by simpa [ReadyQueue.setPriority] using hp) with ⟨s₂, hinsert, href₃, hthreads₃⟩
  refine ⟨s₂, ?_, href₃, ?_⟩
  · unfold rtThreadControl
    rw [if_pos hready, hremove, Option.bind_some, hinsert]
  · rw [hthreads₃, SchedState.setThread, hthreads₁]
    simp [hready]

theorem rtSchedule (href : Refines n s q) (hne : q.ready ≠ []) (current : Thread) :
    ∃ t, rtSchedule n 0 s current = some t ∧ q.IsChoice t := by
  rcases exists_mem_of_ne_nil _ hne with ⟨u, hu⟩
  have hsome : s.queue (q.priority u) ≠ [] := by
    intro hnil
    have hmem := href.mem_queue_iff.mpr ⟨hu, rfl⟩
    rw [hnil] at hmem
    exact not_mem_nil hmem
  rcases href.bits.highestReadyPriority hsome with ⟨hnonempty, hleast⟩
  unfold Scheduler.rtSchedule
  rw [if_pos rfl]
  cases hlist : s.queue (highestReadyPriority n s.bits) with
  | nil => contradiction
  | cons t rest =>
    have hmem : t ∈ s.queue (highestReadyPriority n s.bits) := by simp [hlist]
    rcases href.mem_queue_iff.mp hmem with ⟨hready, hpriority⟩
    refine ⟨t, rfl, hready, ?_, ?_⟩
    · intro v hv
      rw [hpriority]
      apply hleast
      intro hnil
      have hmem := href.mem_queue_iff.mpr ⟨hv, rfl⟩
      rw [hnil] at hmem
      exact not_mem_nil hmem
    · rw [hpriority, ← head?_filter, ← href.queue, hlist, head?_cons]

end Refines
end Refinement
end RtThread.Scheduler
