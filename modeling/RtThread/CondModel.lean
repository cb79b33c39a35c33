import RtThread.GuardedRun

/-!
# Condition variables

A condition is a semaphore.  A waiting thread releases its mutex, takes the semaphore and takes
the mutex again; a signal releases the semaphore once, and a broadcast until no thread is
suspended there.
-/

namespace RtThread.Cond

open List

def RT_EOK : ℤ := 0
def RT_ETIMEOUT : ℤ := 2

/-- Where a thread is in `_pthread_cond_timedwait`: it has not called it, it has released the
mutex, it is suspended in `rt_sem_take`, or it has come back from there. -/
inductive Wait where
  | outside
  | released
  | suspended
  | taken (result : ℤ)
  deriving DecidableEq

structure CondState (κ : Type) where
  value : ℕ
  suspendThread : List κ
  waits : κ → Wait

namespace CondState

variable {κ : Type} [DecidableEq κ] {c : CondState κ} {t u : κ}

def setWait (c : CondState κ) (t : κ) (wait : Wait) : CondState κ :=
  { c with waits := Function.update c.waits t wait }

def rtSemTake (c : CondState κ) (t : κ) : CondState κ :=
  if 0 < c.value then { c.setWait t (.taken RT_EOK) with value := c.value - 1 }
  else { c.setWait t .suspended with suspendThread := c.suspendThread ++ [t] }

def rtSemRelease (c : CondState κ) : CondState κ :=
  match c.suspendThread with
  | [] => { c with value := (c.value + 1) % 65536 }
  | t :: rest => { c.setWait t (.taken RT_EOK) with suspendThread := rest }

def timeout (c : CondState κ) (t : κ) : CondState κ :=
  { c.setWait t (.taken (-RT_ETIMEOUT)) with suspendThread := c.suspendThread.erase t }

/-- The loop of `pthread_cond_broadcast`, which ends when `rt_sem_trytake` succeeds. -/
def broadcastLoop : ℕ → CondState κ → CondState κ
  | 0, c => c
  | rounds + 1, c =>
    if 0 < c.value then { c with value := c.value - 1 }.rtSemRelease
    else broadcastLoop rounds c.rtSemRelease

def pthreadCondBroadcast (c : CondState κ) : CondState κ :=
  c.broadcastLoop (c.suspendThread.length + 2)

def pthreadCondSignal (c : CondState κ) : CondState κ := c.rtSemRelease

/-- The list holds the suspended threads, and the value is zero while there are any. -/
structure Linked (c : CondState κ) : Prop where
  nodup : c.suspendThread.Nodup
  mem_iff : ∀ t, t ∈ c.suspendThread ↔ c.waits t = .suspended
  value_zero : c.suspendThread ≠ [] → c.value = 0
  value_lt : c.value < 65536

@[simp] theorem setWait_self (c : CondState κ) (t : κ) (wait : Wait) :
    (c.setWait t wait).waits t = wait := Function.update_self ..

theorem setWait_of_ne (wait : Wait) (hut : u ≠ t) : (c.setWait t wait).waits u = c.waits u :=
  Function.update_of_ne hut ..

theorem rtSemTake_of_pos (t : κ) (hvalue : 0 < c.value) :
    c.rtSemTake t = { c.setWait t (.taken RT_EOK) with value := c.value - 1 } := if_pos hvalue

theorem rtSemTake_of_zero (t : κ) (hvalue : c.value = 0) : c.rtSemTake t =
      { c.setWait t .suspended with suspendThread := c.suspendThread ++ [t] } :=
  if_neg (by omega)

theorem rtSemRelease_of_nil (hempty : c.suspendThread = []) :
    c.rtSemRelease = { c with value := (c.value + 1) % 65536 } := by
  unfold rtSemRelease
  rw [hempty]

theorem rtSemRelease_of_cons {rest : List κ} (hqueue : c.suspendThread = t :: rest) :
    c.rtSemRelease = { c.setWait t (.taken RT_EOK) with suspendThread := rest } := by
  unfold rtSemRelease
  rw [hqueue]

namespace Linked

theorem setWait (hlinked : Linked c) (wait : Wait) (hbefore : c.waits t ≠ .suspended)
    (hafter : wait ≠ .suspended) : Linked (c.setWait t wait) :=
  { hlinked with
    mem_iff u := by
      by_cases hut : u = t
      · subst hut
        rw [setWait_self]
        exact iff_of_false (fun hmem => hbefore ((hlinked.mem_iff u).mp hmem)) hafter
      · rw [setWait_of_ne wait hut]
        exact hlinked.mem_iff u }

omit [DecidableEq κ] in
theorem suspendThread_eq_nil (hlinked : Linked c) (hvalue : 0 < c.value) :
    c.suspendThread = [] := by
  by_contra hne
  exact absurd (hlinked.value_zero hne) hvalue.ne'

theorem rtSemTake (hlinked : Linked c) (ht : c.waits t = .released) : Linked (c.rtSemTake t) := by
  have hout : c.waits t ≠ .suspended := by
    rw [ht]
    exact Wait.noConfusion
  have hnotin : t ∉ c.suspendThread := fun hmem => hout ((hlinked.mem_iff t).mp hmem)
  rcases Nat.eq_zero_or_pos c.value with hzero | hpos
  · rw [rtSemTake_of_zero t hzero]
    constructor
    · have hsingle : [t].Nodup := nodup_singleton t
      refine nodup_append.mpr ⟨hlinked.nodup, hsingle, fun u hu v hv huv => hnotin ?_⟩
      rw [← mem_singleton.mp hv, ← huv]
      exact hu
    · intro u
      by_cases hut : u = t
      · subst hut
        simp
      · change u ∈ c.suspendThread ++ [t] ↔ (c.setWait t .suspended).waits u = .suspended
        rw [setWait_of_ne _ hut, ← hlinked.mem_iff]
        simp [hut]
    · intro _
      exact hzero
    · exact hlinked.value_lt
  · rw [rtSemTake_of_pos t hpos]
    have hset := hlinked.setWait (.taken RT_EOK) hout Wait.noConfusion
    refine ⟨hset.nodup, hset.mem_iff, fun hne => ?_, ?_⟩
    · exact absurd (hlinked.suspendThread_eq_nil hpos) hne
    · exact (Nat.sub_le _ _).trans_lt hlinked.value_lt

theorem rtSemRelease (hlinked : Linked c) : Linked c.rtSemRelease := by
  cases hqueue : c.suspendThread with
  | nil =>
    rw [rtSemRelease_of_nil hqueue]
    exact ⟨hlinked.nodup, hlinked.mem_iff, fun hne => absurd hqueue hne, Nat.mod_lt _ (by decide)⟩
  | cons t rest =>
    have hnodup := hlinked.nodup
    have hzero := hlinked.value_zero (by rw [hqueue]; exact cons_ne_nil _ _)
    rw [hqueue, nodup_cons] at hnodup
    rw [rtSemRelease_of_cons hqueue]
    refine ⟨hnodup.2, fun u => ?_, fun _ => hzero, hlinked.value_lt⟩
    by_cases hut : u = t
    · subst hut
      simp [hnodup.1]
    · change u ∈ rest ↔ (c.setWait t (.taken RT_EOK)).waits u = .suspended
      rw [setWait_of_ne _ hut, ← hlinked.mem_iff, hqueue, mem_cons]
      simp [hut]

theorem timeout (hlinked : Linked c) : Linked (c.timeout t) where
  nodup := hlinked.nodup.erase t
  mem_iff u := by
    change u ∈ c.suspendThread.erase t ↔ (c.setWait t _).waits u = .suspended
    rw [hlinked.nodup.mem_erase_iff]
    by_cases hut : u = t
    · subst hut
      simp
    · rw [setWait_of_ne _ hut, ← hlinked.mem_iff]
      simp [hut]
  value_zero hne := hlinked.value_zero fun hempty => hne (by
    change c.suspendThread.erase t = []
    rw [hempty, erase_nil])
  value_lt := hlinked.value_lt

end Linked

theorem rtSemRelease_of_trytake (hlinked : Linked c) (hpos : 0 < c.value) :
    ({ c with value := c.value - 1 } : CondState κ).rtSemRelease = c := by
  have hempty : ({ c with value := c.value - 1 } : CondState κ).suspendThread = [] :=
    hlinked.suspendThread_eq_nil hpos
  have hlt := hlinked.value_lt
  have hvalue : (c.value - 1 + 1) % 65536 = c.value := by omega
  rw [rtSemRelease_of_nil hempty]
  simp only [hvalue]

omit [DecidableEq κ] in
theorem waits_of_nil (hlinked : Linked c) (hempty : c.suspendThread = []) (t : κ) :
    c.waits t = if c.waits t = .suspended then .taken RT_EOK else c.waits t := by
  have hout : c.waits t ≠ .suspended := by
    rw [ne_eq, ← hlinked.mem_iff, hempty]
    exact not_mem_nil
  rw [if_neg hout]

/-- A broadcast wakes every waiter and leaves a token behind. -/
theorem broadcastLoop_spec {rounds : ℕ} (hlinked : Linked c)
    (hrounds : c.suspendThread.length + 2 ≤ rounds) :
    Linked (broadcastLoop rounds c) ∧ (broadcastLoop rounds c).suspendThread = [] ∧
      (broadcastLoop rounds c).value = max c.value 1 ∧ ∀ t, (broadcastLoop rounds c).waits t =
        if c.waits t = .suspended then .taken RT_EOK else c.waits t := by
  induction rounds generalizing c with
  | zero => exact absurd hrounds (by omega)
  | succ rounds ih =>
    rcases Nat.eq_zero_or_pos c.value with hzero | hpos
    · have hrelease := hlinked.rtSemRelease
      rw [broadcastLoop, if_neg (by omega)]
      cases hqueue : c.suspendThread with
      | nil =>
        rw [rtSemRelease_of_nil hqueue, hzero] at hrelease ⊢
        obtain ⟨rounds, rfl⟩ : ∃ r, rounds = r + 1 := ⟨rounds - 1, by omega⟩
        rw [broadcastLoop, if_pos Nat.one_pos, rtSemRelease_of_trytake hrelease Nat.one_pos]
        exact ⟨hrelease, hqueue, rfl, waits_of_nil hrelease hqueue⟩
      | cons t rest =>
        rw [hqueue, length_cons] at hrounds
        rw [rtSemRelease_of_cons hqueue] at hrelease ⊢
        obtain ⟨hlinked', hempty, hvalue, hwaits⟩ := ih hrelease (Nat.le_of_succ_le_succ (by
          change rest.length + 2 + 1 ≤ rounds + 1
          omega))
        refine ⟨hlinked', hempty, hvalue, fun u => ?_⟩
        rw [hwaits]
        change (if (c.setWait t (.taken RT_EOK)).waits u = .suspended then _ else
          (c.setWait t (.taken RT_EOK)).waits u) = _
        by_cases hut : u = t
        · subst hut
          have hu : c.waits u = .suspended := (hlinked.mem_iff u).mp (by simp [hqueue])
          simp [hu]
        · rw [setWait_of_ne _ hut]
    · rw [broadcastLoop, if_pos hpos, rtSemRelease_of_trytake hlinked hpos]
      have hempty := hlinked.suspendThread_eq_nil hpos
      exact ⟨hlinked, hempty, (max_eq_left hpos).symm, waits_of_nil hlinked hempty⟩

theorem pthreadCondBroadcast_spec (hlinked : Linked c) :
    Linked c.pthreadCondBroadcast ∧ c.pthreadCondBroadcast.suspendThread = [] ∧
      c.pthreadCondBroadcast.value = max c.value 1 ∧ ∀ t, c.pthreadCondBroadcast.waits t =
        if c.waits t = .suspended then .taken RT_EOK else c.waits t :=
  broadcastLoop_spec hlinked le_rfl

end CondState
end RtThread.Cond
