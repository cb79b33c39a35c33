import RtThread.MutexRuns

/-!
# Priority inheritance

A thread lends its priority once, when it blocks.  The first part says when the
owner of a mutex stays at least as urgent as the threads which wait for it, the
second part when a thread is back at its own priority once it owns no mutex.
-/

namespace RtThread.Mutex

open Function List Option Ipc

variable {κ : Type}

/-- An owner is as urgent as any thread that waits for its mutex. -/
def Inherits (s : MutexState κ) : Prop :=
  ∀ m o t, (s.mutexes m).owner = some o → t ∈ s.core.wait m → s.core.priority o ≤ s.core.priority t

def LastHold (mutex : RtMutex) : Prop := (mutex.hold + 255) % 256 = 0

/-- When a thread blocks, the owner it lends its priority to does not wait for a
less urgent thread.  When a thread gives a mutex up, the priority it falls back
to serves the mutexes it keeps, and the first waiting thread, which gets the
mutex, is as urgent as the ones which go on waiting. -/
def LendingSuffices (s : MutexState κ) : Action κ → Prop
  | .take t m time => ∀ o, (s.mutexes m).owner = some o → o ≠ t → time ≠ 0 →
      ∀ n, o ∈ s.core.wait n → ∀ p, (s.mutexes n).owner = some p →
        s.core.priority p ≤ s.core.priority t
  | .release t m => (s.mutexes m).owner = some t → LastHold (s.mutexes m) →
      (∀ n, n ≠ m → (s.mutexes n).owner = some t → ∀ u ∈ s.core.wait n,
        (s.mutexes m).originalPriority ≤ s.core.priority u) ∧ ∀ u, (s.core.wait m).head? = some u →
        ∀ v ∈ (s.core.wait m).tail, s.core.priority u ≤ s.core.priority v
  | .timeout _ => True

variable [DecidableEq κ] {s s' : MutexState κ} {m n : κ} {t u o : Thread} {action : Action κ}

omit [DecidableEq κ] in
theorem Inherits.of_same (hinherits : Inherits s)
    (howner : ∀ m, (s'.mutexes m).owner = (s.mutexes m).owner)
    (hpriority : ∀ t, s'.core.priority t = s.core.priority t)
    (hwait : ∀ m t, t ∈ s'.core.wait m → t ∈ s.core.wait m) : Inherits s' := by
  intro m o t ho ht
  rw [hpriority, hpriority]
  exact hinherits m o t (howner m ▸ ho) (hwait m t ht)

theorem owner_update_of_same {mutex : RtMutex} (howner : mutex.owner = (s.mutexes m).owner)
    (n : κ) : (update s.mutexes m mutex n).owner = (s.mutexes n).owner := by
  by_cases hnm : n = m
  · rw [hnm, update_self, howner]
  · rw [update_of_ne hnm]

theorem inherits_block_iff {time : ℤ} {flag : IpcFlag} (hinv : MutexInv s) (hinherits : Inherits s)
    (hready : (s.core.threads t).stat = .ready) (howner : (s.mutexes m).owner = some o)
    (hne : o ≠ t) : Inherits
        ⟨asleep (raiseOwner (setError s.core t .eok) o t) m flag t time, s.mutexes⟩ ↔
      ∀ n, o ∈ s.core.wait n → ∀ p, (s.mutexes n).owner = some p →
        s.core.priority p ≤ s.core.priority t := by
  have hready' : ((raiseOwner (setError s.core t .eok) o t).threads t).stat = .ready := by
    simp [hready]
  have hpriority : ∀ u,
      (asleep (raiseOwner (setError s.core t .eok) o t) m flag t time).priority u =
        if u = o then min (s.core.priority t) (s.core.priority o) else s.core.priority u := by
    intro u
    rw [asleep_priority m flag time hready', raiseOwner_priority]
    simp only [setError_priority]
  rcases asleep_wait (raiseOwner (setError s.core t .eok) o t) m flag t time with ⟨hperm, hother⟩
  rw [raiseOwner_wait] at hperm hother
  have hmem : ∀ n u, u ∈ (asleep (raiseOwner (setError s.core t .eok) o t) m flag t time).wait n ↔
        (u = t ∧ n = m) ∨ u ∈ s.core.wait n := by
    intro n u
    by_cases hnm : n = m
    · subst hnm
      rw [hperm.mem_iff, mem_cons]
      simp [setError, Core.setThread]
    · rw [hother n hnm]
      simp [hnm, setError, Core.setThread]
  constructor
  · intro hafter n hwait p hp
    have hpo : p ≠ o := by
      rintro rfl
      exact (hinv.owned n p hp).2 hwait
    have hle := hafter n p o hp ((hmem n o).mpr (.inr hwait))
    simp only [hpriority, if_neg hpo, if_true] at hle
    lia
  · intro hguard n p u hp hu
    change (asleep _ m flag t time).priority p ≤ (asleep _ m flag t time).priority u
    rw [hpriority, hpriority]
    rcases (hmem n u).mp hu with ⟨rfl, rfl⟩ | hold
    · rw [howner] at hp
      rw [← some.inj hp, if_pos rfl, if_neg (Ne.symm hne)]
      lia
    · have hle := hinherits n p u hp hold
      by_cases huo : u = o
      · subst huo
        have hpu : p ≠ u := by
          rintro rfl
          exact (hinv.owned n p hp).2 hold
        have hlent := hguard n hold p hp
        rw [if_neg hpu, if_pos rfl]
        lia
      · rw [if_neg huo]
        split_ifs with hpo
        · rw [hpo] at hle
          lia
        · exact hle

theorem inherits_giveUp_iff {core : Core κ} {mutex : RtMutex} (hinv : MutexInv s)
    (hinherits : Inherits s) (hready : (s.core.threads t).stat = .ready)
    (hpriority : ∀ u, core.priority u =
      if u = t then (s.mutexes m).originalPriority else s.core.priority u)
    (hwait : ∀ n, n ≠ m → core.wait n = s.core.wait n)
    (hrest : ∀ u ∈ core.wait m, u ∈ s.core.wait m) (hmutex : ∀ u, mutex.owner = some u → u ≠ t) :
    Inherits ⟨core, update s.mutexes m mutex⟩ ↔
      (∀ n, n ≠ m → (s.mutexes n).owner = some t → ∀ u ∈ s.core.wait n,
        (s.mutexes m).originalPriority ≤ s.core.priority u) ∧
      ∀ u, mutex.owner = some u → ∀ v ∈ core.wait m, s.core.priority u ≤ s.core.priority v := by
  have hrunning : ∀ n u, u ∈ s.core.wait n → u ≠ t := by
    rintro n u hu rfl
    exact hinv.linked.not_mem_of_ready hready hu
  constructor
  · intro hafter
    constructor
    · intro n hnm hn u hu
      have hle := hafter n t u (by simp [update_of_ne hnm, hn]) (by simp [hwait n hnm, hu])
      simp only [hpriority, if_true, if_neg (hrunning n u hu)] at hle
      exact hle
    · intro u hu v hv
      have hle := hafter m u v (by simp [hu]) hv
      simp only [hpriority, if_neg (hmutex u hu), if_neg (hrunning m v (hrest v hv))] at hle
      exact hle
  · rintro ⟨hkept, hnew⟩ n p u hp hu
    simp only [hpriority]
    by_cases hnm : n = m
    · subst hnm
      simp only [update_self] at hp
      rw [if_neg (hmutex p hp), if_neg (hrunning n u (hrest u hu))]
      exact hnew p hp u hu
    · simp only [update_of_ne hnm, hwait n hnm] at hp hu
      rw [if_neg (hrunning n u hu)]
      split_ifs with hpt
      · rw [hpt] at hp
        exact hkept n hnm hp u hu
      · exact hinherits n p u hp hu

/-- The owners keep the priority they need exactly when the lending suffices. -/
theorem inherits_step_iff (hinv : MutexInv s) (hinherits : Inherits s) (henabled : action.Enabled s)
    (heffect : Effect s action s') : Inherits s' ↔ LendingSuffices s action := by
  cases heffect with
  | @recursive t m time howner =>
    apply iff_of_true
    · exact hinherits.of_same (owner_update_of_same rfl) (fun u => setError_priority ..)
        (fun _ _ hu => hu)
    · intro o ho hne
      rw [howner] at ho
      exact absurd (some.inj ho).symm hne
  | @acquire t m time howner =>
    apply iff_of_true
    · intro n o u ho hu
      have hwait := (hinv.free m howner).2.1
      have hnm : n ≠ m := by
        rintro rfl
        change u ∈ s.core.wait n at hu
        rw [hwait] at hu
        exact not_mem_nil hu
      simp only [setError_priority]
      simp only [update_of_ne hnm] at ho
      exact hinherits n o u ho hu
    · intro o ho
      rw [howner] at ho
      exact absurd ho (by simp)
  | @refuse t o m time howner hne htime =>
    apply iff_of_true
    · exact hinherits.of_same (fun _ => rfl) (fun u => by simp) (fun _ _ hu => hu)
    · exact fun _ _ _ hpositive => absurd htime hpositive
  | @block t o m time hready howner hne htime =>
    rw [inherits_block_iff hinv hinherits hready howner hne]
    constructor
    · intro hguard o' ho'
      rw [howner] at ho'
      rw [← some.inj ho']
      exact fun _ _ => hguard
    · exact fun hguard => hguard o howner hne htime
  | @foreign t m howner =>
    apply iff_of_true
    · exact hinherits.of_same (fun _ => rfl) (fun u => by simp) (fun _ _ hu => hu)
    · exact fun hmine => absurd hmine howner
  | @unnest t m howner hhold =>
    apply iff_of_true
    · exact hinherits.of_same (owner_update_of_same rfl) (fun _ => rfl) (fun _ _ hu => hu)
    · exact fun _ hlast => absurd hlast hhold
  | @handOver t u m rest code howner hhold hlist =>
    have hmem : u ∈ s.core.wait m := by simp [hlist]
    have hwait : ∀ n, (woken (restorePriority s.core t (s.mutexes m).originalPriority)
        u code).wait n = (s.core.wait n).erase u := by
      intro n
      rw [woken_wait, restorePriority_wait]
    have hother : ∀ n, n ≠ m → (s.core.wait n).erase u = s.core.wait n := by
      intro n hnm
      apply erase_of_not_mem
      exact fun hu => hnm (hinv.linked.unique n m u hu hmem)
    rw [inherits_giveUp_iff hinv hinherits henabled]
    · simp only [hwait, hlist, erase_cons_head]
      constructor
      · intro hboth _ _
        refine ⟨hboth.1, ?_⟩
        intro v hv
        rw [hlist, head?_cons] at hv
        rw [hlist, tail_cons]
        exact hboth.2 v hv
      · intro hguard
        rcases hguard howner hhold with ⟨hkept, hnew⟩
        refine ⟨hkept, ?_⟩
        intro v hv
        rw [hlist, head?_cons, tail_cons] at hnew
        exact hnew v hv
    · intro v
      rw [woken_priority, restorePriority_priority]
    · exact fun n hnm => (hwait n).trans (hother n hnm)
    · intro v hv
      rw [hwait] at hv
      exact mem_of_mem_erase hv
    · rintro v hv rfl
      rw [some.inj hv] at hmem
      exact (hinv.owned m v howner).2 hmem
  | @giveBack t m howner hhold hlist =>
    rw [inherits_giveUp_iff hinv hinherits henabled]
    · constructor
      · intro hboth _ _
        refine ⟨hboth.1, ?_⟩
        intro v hv
        rw [hlist] at hv
        exact absurd hv (by simp)
      · intro hguard
        exact ⟨(hguard howner hhold).1, fun u hu => absurd hu (by simp)⟩
    · exact fun v => restorePriority_priority ..
    · exact fun n _ => by rw [restorePriority_wait]
    · exact fun v hv => by rwa [restorePriority_wait] at hv
    · exact fun v hv => absurd hv (by simp)
  | timeout =>
    apply iff_of_true
    · exact hinherits.of_same (fun _ => rfl) (fun u => by simp)
        (fun _ _ hu => mem_of_mem_erase hu)
    · trivial

/-- In every run whose steps lend enough, no owner is less urgent than a waiting
thread; a step which does not lend enough ends this. -/
theorem inherits_of_lendingSuffices (flags : κ → IpcFlag) (initPriority : Thread → ℕ)
    (hreach : (mutexSystem flags initPriority).Reachable LendingSuffices s) : Inherits s ∧
      ∀ action s', (mutexSystem flags initPriority).step s action s' →
        (Inherits s' ↔ LendingSuffices s action) := by
  have hboth : MutexInv s ∧ Inherits s := by
    apply hreach.invariant (P := fun s => MutexInv s ∧ Inherits s)
    · intro s hinit
      refine ⟨MutexInv.of_init hinit, ?_⟩
      intro m o t _ ht
      rw [hinit.1 m] at ht
      cases ht
    · rintro s action s' ⟨hinv, hinherits⟩ hguard ⟨henabled, hexecute⟩
      have heffect := hinv.effect henabled hexecute
      exact ⟨hinv.of_effect heffect, (inherits_step_iff hinv hinherits henabled heffect).mpr hguard⟩
  rcases hboth with ⟨hinv, hinherits⟩
  refine ⟨hinherits, ?_⟩
  rintro action s' ⟨henabled, hexecute⟩
  exact inherits_step_iff hinv hinherits henabled (hinv.effect henabled hexecute)

instance (mutex : RtMutex) : Decidable (LastHold mutex) :=
  inferInstanceAs (Decidable ((mutex.hold + 255) % 256 = 0))

instance [Fintype κ] (s : MutexState κ) (action : Action κ) :
    Decidable (LendingSuffices s action) :=
  match action with
  | .take t m time => inferInstanceAs (Decidable (∀ o ∈ (s.mutexes m).owner, o ≠ t → time ≠ 0 →
        ∀ n, o ∈ s.core.wait n → ∀ p ∈ (s.mutexes n).owner, s.core.priority p ≤ s.core.priority t))
  | .release t m => inferInstanceAs (Decidable
      ((s.mutexes m).owner = some t → LastHold (s.mutexes m) →
        (∀ n, n ≠ m → (s.mutexes n).owner = some t → ∀ u ∈ s.core.wait n,
          (s.mutexes m).originalPriority ≤ s.core.priority u) ∧
        ∀ u ∈ (s.core.wait m).head?,
          ∀ v ∈ (s.core.wait m).tail, s.core.priority u ≤ s.core.priority v))
  | .timeout _ => isTrue trivial

def samplePriority (t : Thread) : ℕ := 10 * t.val.toNat

theorem inherits_in_sample : ∃ s : MutexState Bool,
      (mutexSystem (fun _ => .prio) samplePriority).Reachable LendingSuffices s ∧
        s.core.wait false = [⟨1, by decide⟩, ⟨2, by decide⟩] ∧
        s.core.priority ⟨3, by decide⟩ = 10 ∧ Inherits s := by
  have hrun : (sampleRun (fun _ : Bool => .prio) samplePriority LendingSuffices
      [.take ⟨3, by decide⟩ false 0, .take ⟨2, by decide⟩ true 0,
        .take ⟨2, by decide⟩ false 5, .take ⟨1, by decide⟩ false (-1)]).map
      (fun s => (s.core.wait false, s.core.priority ⟨3, by decide⟩)) =
      some ([⟨1, by decide⟩, ⟨2, by decide⟩], 10) := by decide
  rcases map_eq_some_iff.mp hrun with ⟨s, hs, hpair⟩
  have hreach := reachable_sampleRun hs
  exact ⟨s, hreach, (Prod.mk.inj hpair).1, (Prod.mk.inj hpair).2,
    (inherits_of_lendingSuffices _ _ hreach).1⟩

/-- A mutex with the flag `RT_IPC_FLAG_FIFO` is handed to a thread of priority 30
while a thread of priority 20 goes on waiting. -/
theorem handOver_not_inherits : ∃ s : MutexState Unit,
      (mutexSystem (fun _ => .fifo) samplePriority).Reachable (fun _ _ => True) s ∧
        (s.mutexes ()).owner = some ⟨3, by decide⟩ ∧ s.core.wait () = [⟨2, by decide⟩] ∧
        ¬Inherits s := by
  have hrun : (sampleRun (fun _ : Unit => .fifo) samplePriority (fun _ _ => True)
      [.take ⟨1, by decide⟩ () 0, .take ⟨3, by decide⟩ () (-1),
        .take ⟨2, by decide⟩ () (-1), .release ⟨1, by decide⟩ ()]).map
      (fun s => ((s.mutexes ()).owner, s.core.wait (), s.core.priority ⟨3, by decide⟩,
        s.core.priority ⟨2, by decide⟩)) =
      some (some ⟨3, by decide⟩, [⟨2, by decide⟩], 30, 20) := by decide
  rcases map_eq_some_iff.mp hrun with ⟨s, hs, hvalues⟩
  simp only [Prod.mk.injEq] at hvalues
  rcases hvalues with ⟨howner, hwait, hthree, htwo⟩
  refine ⟨s, reachable_sampleRun hs, howner, hwait, ?_⟩
  intro hinherits
  have hle := hinherits () _ ⟨2, by decide⟩ howner (by simp [hwait])
  rw [hthree, htwo] at hle
  exact absurd hle (by decide)

/-- A thread which owns no mutex has its own priority. -/
def BoostsEnd (initPriority : Thread → ℕ) (s : MutexState κ) : Prop :=
  ∀ t, (∀ m, (s.mutexes m).owner ≠ some t) → s.core.priority t = initPriority t

/-- A thread which keeps other mutexes does not give up the last one in which its
own priority is recorded. -/
def BaseKept (initPriority : Thread → ℕ) (s : MutexState κ) : Action κ → Prop
  | .release t m => (s.mutexes m).owner = some t → LastHold (s.mutexes m) →
      (s.mutexes m).originalPriority = initPriority t →
      (∃ n, n ≠ m ∧ (s.mutexes n).owner = some t) → ∃ n, n ≠ m ∧ (s.mutexes n).owner = some t ∧
          (s.mutexes n).originalPriority = initPriority t
  | _ => True

/-- A thread with a mutex has recorded its initial priority in one of its own. -/
structure BaseInv (initPriority : Thread → ℕ) (s : MutexState κ) : Prop where
  inv : MutexInv s
  boostsEnd : BoostsEnd initPriority s
  recorded : ∀ t m, (s.mutexes m).owner = some t →
    ∃ n, (s.mutexes n).owner = some t ∧ (s.mutexes n).originalPriority = initPriority t

namespace BaseInv

variable {initPriority : Thread → ℕ}

omit [DecidableEq κ] in
theorem of_records (hbase : BaseInv initPriority s) (hinv : MutexInv s')
    (howner : ∀ m, (s'.mutexes m).owner = (s.mutexes m).owner)
    (hrecord : ∀ m, (s'.mutexes m).originalPriority = (s.mutexes m).originalPriority)
    (hpriority : ∀ t, (∀ m, (s.mutexes m).owner ≠ some t) →
      s'.core.priority t = s.core.priority t) : BaseInv initPriority s' := by
  refine ⟨hinv, ?_, ?_⟩
  · intro t hnone
    simp only [howner] at hnone
    rw [hpriority t hnone]
    exact hbase.boostsEnd t hnone
  · intro t m hmine
    simp only [howner, hrecord] at hmine ⊢
    exact hbase.recorded t m hmine

theorem record_update_of_same {mutex : RtMutex}
    (hrecord : mutex.originalPriority = (s.mutexes m).originalPriority) (n : κ) :
    (update s.mutexes m mutex n).originalPriority = (s.mutexes n).originalPriority := by
  by_cases hnm : n = m
  · rw [hnm, update_self, hrecord]
  · rw [update_of_ne hnm]

section

variable (hbase : BaseInv initPriority s)
include hbase

theorem recorded_of_other {mutex : RtMutex} (hne : (s.mutexes m).owner ≠ some u)
    (hmutex : mutex.owner = some u → mutex.originalPriority = s.core.priority u)
    (hmine : (update s.mutexes m mutex n).owner = some u) :
    ∃ n, (update s.mutexes m mutex n).owner = some u ∧
      (update s.mutexes m mutex n).originalPriority = initPriority u := by
  by_cases hsome : ∃ n, (s.mutexes n).owner = some u
  · rcases hsome with ⟨n', hn'⟩
    rcases hbase.recorded u n' hn' with ⟨r, hr, hrecord⟩
    have hrm : r ≠ m := fun h => hne (h ▸ hr)
    refine ⟨r, ?_⟩
    rw [update_of_ne hrm]
    exact ⟨hr, hrecord⟩
  · push Not at hsome
    by_cases hnm : n = m
    · rw [hnm, update_self] at hmine
      refine ⟨m, ?_⟩
      rw [update_self]
      exact ⟨hmine, (hmutex hmine).trans (hbase.boostsEnd u hsome)⟩
    · rw [update_of_ne hnm] at hmine
      exact absurd hmine (hsome n)

theorem of_acquire {core : Core κ} {mutex : RtMutex}
    (hinv : MutexInv ⟨core, update s.mutexes m mutex⟩)
    (howner : (s.mutexes m).owner = none) (hmutex : mutex.owner = some t)
    (hrecord : mutex.originalPriority = s.core.priority t)
    (hpriority : ∀ u, core.priority u = s.core.priority u) :
    BaseInv initPriority ⟨core, update s.mutexes m mutex⟩ := by
  refine ⟨hinv, ?_, ?_⟩
  · intro u hnone
    change core.priority u = initPriority u
    rw [hpriority]
    apply hbase.boostsEnd u
    intro n hn
    by_cases hnm : n = m
    · rw [hnm, howner] at hn
      cases hn
    · exact hnone n (by simpa [update_of_ne hnm] using hn)
  · intro u n hmine
    apply hbase.recorded_of_other (by simp [howner]) _ hmine
    intro hu
    rw [hrecord, some.inj (hmutex.symm.trans hu)]

theorem of_giveUp {core : Core κ} {mutex : RtMutex}
    (hinv : MutexInv ⟨core, update s.mutexes m mutex⟩)
    (howner : (s.mutexes m).owner = some t) (hlast : LastHold (s.mutexes m))
    (hguard : BaseKept initPriority s (.release t m)) (hpriority : ∀ u, core.priority u =
      if u = t then (s.mutexes m).originalPriority else s.core.priority u)
    (hmutex : ∀ u, mutex.owner = some u → u ≠ t ∧ mutex.originalPriority = s.core.priority u) :
    BaseInv initPriority ⟨core, update s.mutexes m mutex⟩ := by
  rcases hbase.recorded t m howner with ⟨r, hr, hrecord⟩
  refine ⟨hinv, ?_, ?_⟩
  · intro u hnone
    change core.priority u = initPriority u
    rw [hpriority]
    have hnone' : ∀ n, n ≠ m → (s.mutexes n).owner ≠ some u := by
      intro n hnm hn
      exact hnone n (by simpa [update_of_ne hnm] using hn)
    split_ifs with hut
    · -- the recorded priority of the only mutex is that of the thread
      have hrm : r = m := by
        by_contra hne
        exact hnone' r hne (hut ▸ hr)
      rw [hut, ← hrm]
      exact hrecord
    · apply hbase.boostsEnd u
      intro n hn
      by_cases hnm : n = m
      · rw [hnm, howner] at hn
        exact hut (some.inj hn).symm
      · exact hnone' n hnm hn
  · intro u n hmine
    by_cases hut : u = t
    · subst hut
      have hnm : n ≠ m := by
        rintro rfl
        simp only [update_self] at hmine
        exact (hmutex u hmine).1 rfl
      simp only [update_of_ne hnm] at hmine
      have hkeeps : ∃ r, r ≠ m ∧ (s.mutexes r).owner = some u ∧
          (s.mutexes r).originalPriority = initPriority u := by
        by_cases hrm : r = m
        · exact hguard howner hlast (hrm ▸ hrecord) ⟨n, hnm, hmine⟩
        · exact ⟨r, hrm, hr, hrecord⟩
      rcases hkeeps with ⟨r, hrm, hr, hrecord⟩
      refine ⟨r, ?_⟩
      simp only [update_of_ne hrm]
      exact ⟨hr, hrecord⟩
    · apply hbase.recorded_of_other _ (fun hu => (hmutex u hu).2) hmine
      rw [howner]
      exact fun h => hut (some.inj h).symm

theorem of_effect (heffect : Effect s action s')
    (hguard : BaseKept initPriority s action) : BaseInv initPriority s' := by
  have hinv := hbase.inv.of_effect heffect
  cases heffect with
  | recursive howner =>
    exact hbase.of_records hinv (owner_update_of_same rfl) (record_update_of_same rfl)
      (fun u _ => setError_priority ..)
  | acquire howner =>
    exact hbase.of_acquire hinv howner rfl rfl (fun u => setError_priority ..)
  | refuse =>
    exact hbase.of_records hinv (fun _ => rfl) (fun _ => rfl) (fun u _ => by simp)
  | @block t o m time hready howner hne htime =>
    apply hbase.of_records hinv (fun _ => rfl) (fun _ => rfl)
    intro u hnone
    have huo : u ≠ o := by
      rintro rfl
      exact hnone m howner
    simp [asleep_priority, hready, huo]
  | foreign =>
    exact hbase.of_records hinv (fun _ => rfl) (fun _ => rfl) (fun u _ => by simp)
  | unnest =>
    exact hbase.of_records hinv (owner_update_of_same rfl) (record_update_of_same rfl)
      (fun _ _ => rfl)
  | @handOver t u m rest code howner hhold hlist =>
    have hut : u ≠ t := by
      rintro rfl
      exact (hbase.inv.owned m u howner).2 (by simp [hlist])
    apply hbase.of_giveUp hinv howner hhold hguard
    · intro v
      rw [woken_priority, restorePriority_priority]
    · intro v hv
      have huv := some.inj hv
      rw [← huv]
      exact ⟨hut, by rw [restorePriority_priority, if_neg hut]⟩
  | giveBack howner hhold hlist =>
    apply hbase.of_giveUp hinv howner hhold hguard
    · exact fun v => restorePriority_priority ..
    · exact fun v hv => absurd hv (by simp)
  | timeout =>
    exact hbase.of_records hinv (fun _ => rfl) (fun _ => rfl) (fun u _ => by simp)

end

theorem of_reachable {flags : κ → IpcFlag}
    (hreach : (mutexSystem flags initPriority).Reachable (BaseKept initPriority) s) :
    BaseInv initPriority s := by
  apply hreach.invariant (P := fun s => BaseInv initPriority s)
  · intro s hinit
    refine ⟨MutexInv.of_init hinit, ?_, ?_⟩
    · exact fun t _ => (hinit.2.1 t).2.2
    · intro t m howner
      rw [hinit.2.2 m] at howner
      exact absurd howner (by simp [rtMutexInit])
  · rintro s action s' hbase hguard ⟨henabled, hexecute⟩
    exact hbase.of_effect (hbase.inv.effect henabled hexecute) hguard

end BaseInv

/-- In every run in which no thread gives up the last record of its own priority
too early, a thread without a mutex is at its own priority. -/
theorem boostsEnd_of_baseKept (flags : κ → IpcFlag) (initPriority : Thread → ℕ)
    (hreach : (mutexSystem flags initPriority).Reachable (BaseKept initPriority) s) :
    BoostsEnd initPriority s :=
  (BaseInv.of_reachable hreach).boostsEnd

instance [Fintype κ] (initPriority : Thread → ℕ) (s : MutexState κ) (action : Action κ) :
    Decidable (BaseKept initPriority s action) :=
  match action with
  | .take _ _ _ => isTrue trivial
  | .release _ _ => inferInstanceAs (Decidable (_ → _))
  | .timeout _ => isTrue trivial

theorem boostsEnd_in_sample : ∃ s : MutexState Bool,
      (mutexSystem (fun _ => .prio) samplePriority).Reachable (BaseKept samplePriority) s ∧
        (s.mutexes false).owner = some ⟨1, by decide⟩ ∧ BoostsEnd samplePriority s := by
  have hrun : (sampleRun (fun _ : Bool => .prio) samplePriority (BaseKept samplePriority)
      [.take ⟨3, by decide⟩ false 0, .take ⟨1, by decide⟩ false (-1),
        .take ⟨3, by decide⟩ true 0, .release ⟨3, by decide⟩ true,
        .release ⟨3, by decide⟩ false]).map
      (fun s => (s.mutexes false).owner) = some (some ⟨1, by decide⟩) := by decide
  rcases map_eq_some_iff.mp hrun with ⟨s, hs, howner⟩
  have hreach := reachable_sampleRun hs
  exact ⟨s, hreach, howner, boostsEnd_of_baseKept _ _ hreach⟩

/-- A thread of priority 30 is lent priority 10, takes a second mutex and then
releases the first one and the second one.  It stays at priority 10. -/
theorem boost_outlives_mutexes : ∃ s : MutexState Bool,
      (mutexSystem (fun _ => .prio) samplePriority).Reachable (fun _ _ => True) s ∧
        s.core.priority ⟨3, by decide⟩ = 10 ∧ ¬BoostsEnd samplePriority s := by
  have hrun : (sampleRun (fun _ : Bool => .prio) samplePriority (fun _ _ => True)
      [.take ⟨3, by decide⟩ false 0, .take ⟨1, by decide⟩ false (-1),
        .take ⟨3, by decide⟩ true 0, .release ⟨3, by decide⟩ false,
        .release ⟨3, by decide⟩ true]).map
      (fun s => ((s.mutexes false).owner, (s.mutexes true).owner, s.core.priority ⟨3, by decide⟩)) =
      some (some ⟨1, by decide⟩, none, 10) := by decide
  rcases map_eq_some_iff.mp hrun with ⟨s, hs, hvalues⟩
  simp only [Prod.mk.injEq] at hvalues
  rcases hvalues with ⟨hfirst, hsecond, hpriority⟩
  refine ⟨s, reachable_sampleRun hs, hpriority, ?_⟩
  intro hends
  have hown : ∀ m, (s.mutexes m).owner ≠ some ⟨3, by decide⟩ := by
    intro m
    cases m with
    | false =>
      rw [hfirst]
      decide
    | true =>
      rw [hsecond]
      decide
  have hback := hends ⟨3, by decide⟩ hown
  rw [hpriority] at hback
  cases hback

end RtThread.Mutex
