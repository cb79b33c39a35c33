import RtThread.MutexModel

/-!
# Ownership of mutexes over whole runs

What each call does to the mutexes and to the waiting threads is said once, in
`Effect`.  The invariant is that a free mutex has no waiting thread and that the
owner does not wait for its own mutex.
-/

namespace RtThread.Mutex

open Function List Option Ipc

variable {κ : Type}

section Priorities

variable {core : Core κ}

@[simp] theorem raiseOwner_wait (core : Core κ) (owner t : Thread) :
    (raiseOwner core owner t).wait = core.wait := by
  unfold raiseOwner
  split_ifs <;> rfl

@[simp] theorem raiseOwner_stat (core : Core κ) (owner t u : Thread) :
    ((raiseOwner core owner t).threads u).stat = (core.threads u).stat := by
  unfold raiseOwner
  split_ifs
  · exact changePriority_stat _ _ _ _
  · rfl

@[simp] theorem raiseOwner_priority (core : Core κ) (owner t u : Thread) :
    (raiseOwner core owner t).priority u =
      if u = owner then min (core.priority t) (core.priority owner) else core.priority u := by
  unfold raiseOwner
  split_ifs with hless howner howner
  · rw [changePriority_priority, if_pos howner, min_eq_left hless.le]
  · rw [changePriority_priority, if_neg howner]
  · rw [howner, min_eq_right (not_lt.mp hless)]
  · rfl

@[simp] theorem restorePriority_wait (core : Core κ) (t : Thread) (p : ℕ) :
    (restorePriority core t p).wait = core.wait := by
  unfold restorePriority
  split_ifs <;> rfl

@[simp] theorem restorePriority_priority (core : Core κ) (t u : Thread) (p : ℕ) :
    (restorePriority core t p).priority u = if u = t then p else core.priority u := by
  unfold restorePriority
  split_ifs with hchanged ht ht
  · rw [changePriority_priority, if_pos ht]
  · rw [changePriority_priority, if_neg ht]
  · rw [ht]
    exact (not_not.mp hchanged).symm
  · rfl

theorem linked_raiseOwner (hlinked : Linked core) (owner t : Thread) :
    Linked (raiseOwner core owner t) := by
  unfold raiseOwner
  split_ifs
  · exact hlinked.changePriority _ _
  · exact hlinked

theorem linked_restorePriority (hlinked : Linked core) (t : Thread) (p : ℕ) :
    Linked (restorePriority core t p) := by
  unfold restorePriority
  split_ifs
  · exact hlinked.changePriority _ _
  · exact hlinked

end Priorities

/-- A free mutex has value 1 and no waiters, and an owner does not wait for it. -/
structure MutexInv (s : MutexState κ) : Prop where
  linked : Linked s.core
  free : ∀ m, (s.mutexes m).owner = none →
    (s.mutexes m).value = 1 ∧ s.core.wait m = [] ∧ (s.mutexes m).hold = 0
  owned : ∀ m o, (s.mutexes m).owner = some o → (s.mutexes m).value = 0 ∧ o ∉ s.core.wait m

theorem MutexInv.of_wait {s : MutexState κ} {core : Core κ} (hinv : MutexInv s)
    (hlinked : Linked core) (hwait : ∀ n, ∀ o, o ∈ core.wait n → o ∈ s.core.wait n ∨
      ∃ owner, (s.mutexes n).owner = some owner ∧ owner ≠ o) : MutexInv ⟨core, s.mutexes⟩ := by
  refine ⟨hlinked, ?_, ?_⟩
  · intro n hnone
    rcases hinv.free n hnone with ⟨hvalue, hnil, hhold⟩
    refine ⟨hvalue, ?_, hhold⟩
    apply eq_nil_iff_forall_not_mem.mpr
    intro o ho
    rcases hwait n o ho with hold | ⟨owner, howner, -⟩
    · rw [hnil] at hold
      exact not_mem_nil hold
    · rw [hnone] at howner
      cases howner
  · intro n o hsome
    rcases hinv.owned n o hsome with ⟨hvalue, hnot⟩
    refine ⟨hvalue, ?_⟩
    intro ho
    rcases hwait n o ho with hold | ⟨owner, howner, hne⟩
    · exact hnot hold
    · rw [hsome] at howner
      exact hne (some.inj howner).symm

variable [DecidableEq κ]

/-- What a step of the mutexes does, branch by branch. -/
inductive Effect (s : MutexState κ) : Action κ → MutexState κ → Prop where
  | recursive {t : Thread} {m : κ} {time : ℤ} (howner : (s.mutexes m).owner = some t) :
      Effect s (.take t m time) ⟨setError s.core t .eok, update s.mutexes m
            { s.mutexes m with hold := ((s.mutexes m).hold + 1) % 256 }⟩
  | acquire {t : Thread} {m : κ} {time : ℤ} (howner : (s.mutexes m).owner = none) :
      Effect s (.take t m time) ⟨setError s.core t .eok, update s.mutexes m
            { s.mutexes m with
              value := (s.mutexes m).value - 1
              owner := some t
              originalPriority := s.core.priority t
              hold := ((s.mutexes m).hold + 1) % 256 }⟩
  | refuse {t o : Thread} {m : κ} {time : ℤ}
      (howner : (s.mutexes m).owner = some o) (hne : o ≠ t) (htime : time = 0) :
      Effect s (.take t m time) ⟨setError (setError s.core t .eok) t .etimeout, s.mutexes⟩
  | block {t o : Thread} {m : κ} {time : ℤ} (hready : (s.core.threads t).stat = .ready)
      (howner : (s.mutexes m).owner = some o) (hne : o ≠ t) (htime : time ≠ 0) :
      Effect s (.take t m time)
        ⟨asleep (raiseOwner (setError s.core t .eok) o t) m (s.mutexes m).flag t time, s.mutexes⟩
  | foreign {t : Thread} {m : κ} (howner : (s.mutexes m).owner ≠ some t) :
      Effect s (.release t m) ⟨setError s.core t .error, s.mutexes⟩
  | unnest {t : Thread} {m : κ} (howner : (s.mutexes m).owner = some t)
      (hhold : ((s.mutexes m).hold + 255) % 256 ≠ 0) :
      Effect s (.release t m) ⟨s.core, update s.mutexes m
            { s.mutexes m with hold := ((s.mutexes m).hold + 255) % 256 }⟩
  | handOver {t u : Thread} {m : κ} {rest : List Thread} {code : ErrorCode}
      (howner : (s.mutexes m).owner = some t)
      (hhold : ((s.mutexes m).hold + 255) % 256 = 0)
      (hlist : s.core.wait m = u :: rest) :
      Effect s (.release t m)
        ⟨woken (restorePriority s.core t (s.mutexes m).originalPriority) u code,
          update s.mutexes m
            { s.mutexes m with
              owner := some u
              originalPriority :=
                (restorePriority s.core t (s.mutexes m).originalPriority).priority u
              hold := 1 }⟩
  | giveBack {t : Thread} {m : κ} (howner : (s.mutexes m).owner = some t)
      (hhold : ((s.mutexes m).hold + 255) % 256 = 0)
      (hlist : s.core.wait m = []) :
      Effect s (.release t m) ⟨restorePriority s.core t (s.mutexes m).originalPriority,
          update s.mutexes m
            { s.mutexes m with
              value := ((s.mutexes m).value + 1) % 65536
              owner := none
              originalPriority := 0xff
              hold := 0 }⟩
  | timeout {t : Thread} : Effect s (.timeout t) ⟨woken s.core t .etimeout, s.mutexes⟩

variable {s s' : MutexState κ} {m n : κ} {t u o : Thread} {action : Action κ}

namespace MutexInv

section

variable (hinv : MutexInv s)
include hinv

theorem rtMutexTake_effect {time : ℤ}
    (hready : (s.core.threads t).stat = .ready) (htake : rtMutexTake s m t time = some s') :
    Effect s (.take t m time) s' := by
  rcases rtMutexTake_cases htake with ⟨howner, rfl⟩ | ⟨-, hvalue, rfl⟩ |
    ⟨howner, hvalue, htime, rfl⟩ | ⟨o, howner, hne, -, htime, rfl⟩
  · exact .recursive howner
  · have hnone : (s.mutexes m).owner = none := by
      cases howner : (s.mutexes m).owner with
      | none => rfl
      | some o =>
        have hzero := (hinv.owned m o howner).1
        omega
    rw [setError_priority]
    exact .acquire hnone
  · cases howner' : (s.mutexes m).owner with
    | none =>
      have hone := (hinv.free m howner').1
      omega
    | some o =>
      have hne : o ≠ t := by
        rintro rfl
        exact howner howner'
      exact .refuse howner' hne htime
  · exact .block hready howner hne htime

theorem rtMutexRelease_effect (m : κ) (t : Thread) :
    Effect s (.release t m) (rtMutexRelease s m t) := by
  rcases rtMutexRelease_cases s m t with ⟨howner, hrelease⟩ |
    ⟨howner, hhold, hrelease⟩ | ⟨howner, hhold, hrelease⟩
  · rw [hrelease]
    exact .foreign howner
  · rw [hrelease]
    exact .unnest howner hhold
  · rw [hrelease]
    unfold passOn
    simp only [restorePriority_wait]
    cases hlist : s.core.wait m with
    | nil => exact .giveBack howner hhold hlist
    | cons u rest =>
      have hmem : u ∈ s.core.wait m := by simp [hlist]
      rw [← restorePriority_wait s.core t (s.mutexes m).originalPriority] at hmem
      simp only [(linked_restorePriority hinv.linked t _).rtThreadResume_eq hmem]
      exact .handOver howner hhold hlist

theorem effect (henabled : action.Enabled s)
    (hexecute : execute s action = some s') : Effect s action s' := by
  cases action with
  | take t m time => exact hinv.rtMutexTake_effect henabled hexecute
  | release t m => exact some.inj hexecute ▸ hinv.rtMutexRelease_effect m t
  | timeout t =>
    rw [← some.inj hexecute]
    simp only [rtThreadTimeout_eq]
    exact .timeout

theorem of_update {core : Core κ} {mutex : RtMutex} (hlinked : Linked core)
    (hwait : ∀ n, n ≠ m → ∀ o, o ∈ core.wait n → o ∈ s.core.wait n)
    (hfree : mutex.owner = none → mutex.value = 1 ∧ core.wait m = [] ∧ mutex.hold = 0)
    (howned : ∀ o, mutex.owner = some o → mutex.value = 0 ∧ o ∉ core.wait m) :
    MutexInv ⟨core, update s.mutexes m mutex⟩ := by
  refine ⟨hlinked, ?_, ?_⟩
  · intro n hnone
    by_cases hnm : n = m
    · subst hnm
      simp only [update_self] at hnone ⊢
      exact hfree hnone
    · simp only [update_of_ne hnm] at hnone ⊢
      rcases hinv.free n hnone with ⟨hvalue, hnil, hhold⟩
      refine ⟨hvalue, ?_, hhold⟩
      apply eq_nil_iff_forall_not_mem.mpr
      intro o ho
      have hold := hwait n hnm o ho
      rw [hnil] at hold
      exact not_mem_nil hold
  · intro n o hsome
    by_cases hnm : n = m
    · subst hnm
      simp only [update_self] at hsome ⊢
      exact howned o hsome
    · simp only [update_of_ne hnm] at hsome ⊢
      rcases hinv.owned n o hsome with ⟨hvalue, hnot⟩
      exact ⟨hvalue, fun ho => hnot (hwait n hnm o ho)⟩

theorem of_effect (heffect : Effect s action s') : MutexInv s' := by
  cases heffect with
  | @recursive t m time howner =>
    apply hinv.of_update (hinv.linked.setError t .eok) (fun n _ o ho => ho)
    · intro hnone
      rw [howner] at hnone
      cases hnone
    · exact hinv.owned m
  | @acquire t m time howner =>
    rcases hinv.free m howner with ⟨hvalue, hnil, -⟩
    apply hinv.of_update (hinv.linked.setError t .eok) (fun n _ o ho => ho)
    · exact nofun
    · intro o _
      change (s.mutexes m).value - 1 = 0 ∧ o ∉ s.core.wait m
      rw [hvalue, hnil]
      exact ⟨rfl, not_mem_nil⟩
  | @refuse t o m time howner hne htime =>
    exact hinv.of_wait ((hinv.linked.setError t .eok).setError t .etimeout)
      (fun n o ho => .inl ho)
  | @block t o m time hready howner hne htime =>
    have hlinked := linked_raiseOwner (hinv.linked.setError t .eok) o t
    apply hinv.of_wait (hlinked.asleep (by simp [hready]))
    intro n u hu
    rcases asleep_wait (raiseOwner (setError s.core t .eok) o t) m (s.mutexes m).flag t time
      with ⟨hperm, hother⟩
    rw [raiseOwner_wait] at hperm hother
    by_cases hnm : n = m
    · rw [hnm, hperm.mem_iff, mem_cons] at hu
      rw [hnm]
      rcases hu with rfl | hu
      · exact .inr ⟨o, howner, hne⟩
      · exact .inl hu
    · rw [hother n hnm] at hu
      exact .inl hu
  | @foreign t m howner =>
    exact hinv.of_wait (hinv.linked.setError t .error) (fun n o ho => .inl ho)
  | @unnest t m howner hhold =>
    apply hinv.of_update hinv.linked (fun n _ o ho => ho)
    · intro hnone
      rw [howner] at hnone
      cases hnone
    · exact hinv.owned m
  | @handOver t u m rest code howner hhold hlist =>
    have hlinked := linked_restorePriority hinv.linked t (s.mutexes m).originalPriority
    have hnodup := hinv.linked.nodup m
    rw [hlist, nodup_cons] at hnodup
    apply hinv.of_update (hlinked.woken u code)
    · intro n _ o ho
      rw [woken_wait, restorePriority_wait] at ho
      exact mem_of_mem_erase ho
    · exact nofun
    · intro o ho
      rw [woken_wait, restorePriority_wait, hlist, erase_cons_head, ← some.inj ho]
      exact ⟨(hinv.owned m t howner).1, hnodup.1⟩
  | @giveBack t m howner hhold hlist =>
    apply hinv.of_update (linked_restorePriority hinv.linked t _)
    · intro n _ o ho
      rw [restorePriority_wait] at ho
      exact ho
    · intro _
      rw [restorePriority_wait]
      change ((s.mutexes m).value + 1) % 65536 = 1 ∧ s.core.wait m = [] ∧ 0 = 0
      rw [(hinv.owned m t howner).1]
      exact ⟨rfl, hlist, rfl⟩
    · exact fun o hsome => absurd hsome (by simp)
  | @timeout t =>
    exact hinv.of_wait (hinv.linked.woken t .etimeout)
      (fun n o ho => .inl (mem_of_mem_erase ho))

end

theorem of_init {flags : κ → IpcFlag} {initPriority : Thread → ℕ}
    (hinit : (mutexSystem flags initPriority).init s) :
    MutexInv s := by
  rcases hinit with ⟨hwait, hthreads, hmutexes⟩
  refine ⟨.of_empty hwait (fun t => (hthreads t).2.1), ?_, ?_⟩
  · intro m _
    rw [hmutexes, hwait]
    exact ⟨rfl, rfl, rfl⟩
  · intro m o hsome
    rw [hmutexes] at hsome
    exact absurd hsome (by simp [rtMutexInit])

theorem of_reachable {flags : κ → IpcFlag} {initPriority : Thread → ℕ}
    {guard : MutexState κ → Action κ → Prop}
    (hreach : (mutexSystem flags initPriority).Reachable guard s) :
    MutexInv s := by
  apply hreach.invariant (P := fun s => MutexInv s)
  · exact fun s hinit => of_init hinit
  · rintro s action s' hinv - ⟨henabled, hexecute⟩
    exact hinv.of_effect (hinv.effect henabled hexecute)

end MutexInv

theorem Effect.owner_kept (heffect : Effect s action s') (howner : (s.mutexes m).owner = some o)
    (haction : action ≠ .release o m) : (s'.mutexes m).owner = some o := by
  -- the steps on another mutex leave `m` alone
  have hupdate : ∀ n mutex, (n = m → mutex.owner = some o) →
      (update s.mutexes n mutex m).owner = some o := by
    intro n mutex hmutex
    by_cases hnm : n = m
    · rw [hnm, update_self]
      exact hmutex hnm
    · rw [update_of_ne (Ne.symm hnm)]
      exact howner
  cases heffect with
  | recursive ht =>
    apply hupdate
    rintro rfl
    exact howner
  | acquire hnone =>
    apply hupdate
    rintro rfl
    rw [howner] at hnone
    cases hnone
  | refuse | block | foreign => exact howner
  | unnest =>
    apply hupdate
    rintro rfl
    exact howner
  | handOver ht | giveBack ht =>
    apply hupdate
    rintro rfl
    rw [howner] at ht
    exact absurd (by rw [some.inj ht]) haction
  | timeout => exact howner

/-- The mutexes agree with their owners and waiting threads, and a mutex goes
from hand to hand. -/
structure OwnershipConsistent (s : MutexState κ) : Prop where
  value_le : ∀ m, (s.mutexes m).value = 0 ∨ (s.mutexes m).value = 1
  free_iff : ∀ m, (s.mutexes m).value = 1 ↔ (s.mutexes m).owner = none
  waiting : ∀ m t, t ∈ s.core.wait m → ∃ o, (s.mutexes m).owner = some o ∧ o ≠ t
  take_defined : ∀ m t time, ∃ s', rtMutexTake s m t time = some s'
  foreign : ∀ m t, (s.mutexes m).owner ≠ some t →
    rtMutexRelease s m t = { s with core := setError s.core t .error }
  handOver : ∀ m t u rest, (s.mutexes m).owner = some t → (s.mutexes m).hold = 1 →
    s.core.wait m = u :: rest → ((rtMutexRelease s m t).mutexes m).owner = some u ∧
      ((rtMutexRelease s m t).mutexes m).value = 0 ∧
      ((rtMutexRelease s m t).mutexes m).hold = 1 ∧
      (rtMutexRelease s m t).core.wait m = rest ∧
      ((rtMutexRelease s m t).core.threads u).stat = .ready
  kept : ∀ m o action s', (s.mutexes m).owner = some o → action.Enabled s →
    execute s action = some s' → action ≠ .release o m → (s'.mutexes m).owner = some o

/-- Every order of takes, releases and timeouts keeps the ownership consistent. -/
theorem ownershipConsistent_of_reachable (flags : κ → IpcFlag) (initPriority : Thread → ℕ)
    (hreach : (mutexSystem flags initPriority).Reachable (fun _ _ => True) s) :
    OwnershipConsistent s := by
  have hinv := MutexInv.of_reachable hreach
  constructor
  · intro m
    cases howner : (s.mutexes m).owner with
    | none => exact .inr (hinv.free m howner).1
    | some o => exact .inl (hinv.owned m o howner).1
  · intro m
    cases howner : (s.mutexes m).owner with
    | none => simp [(hinv.free m howner).1]
    | some o => simp [(hinv.owned m o howner).1]
  · intro m t ht
    cases howner : (s.mutexes m).owner with
    | none =>
      rw [(hinv.free m howner).2.1] at ht
      cases ht
    | some o =>
      refine ⟨o, rfl, ?_⟩
      rintro rfl
      exact (hinv.owned m o howner).2 ht
  · intro m t time
    cases howner : (s.mutexes m).owner with
    | none =>
      simp [rtMutexTake, howner, (hinv.free m howner).1]
    | some o =>
      simp only [rtMutexTake, howner]
      split_ifs <;> exact ⟨_, rfl⟩
  · intro m t hforeign
    unfold rtMutexRelease
    rw [if_pos (Ne.symm hforeign)]
  · intro m t u rest howner hhold hlist
    have heffect := hinv.rtMutexRelease_effect m t
    generalize rtMutexRelease s m t = s' at heffect
    cases heffect with
    | foreign hforeign => contradiction
    | unnest _ hne => exact absurd (by rw [hhold]) hne
    | giveBack _ _ hnil =>
      rw [hlist] at hnil
      cases hnil
    | handOver _ _ hlist' =>
      rw [hlist] at hlist'
      rcases cons.inj hlist' with ⟨rfl, rfl⟩
      simp [woken_wait, woken_self, hlist, (hinv.owned m t howner).1]
  · intro m o action s' howner henabled hexecute haction
    exact (hinv.effect henabled hexecute).owner_kept howner haction

instance (s : MutexState κ) (action : Action κ) : Decidable (action.Enabled s) :=
  match action with
  | .take _ _ _ => inferInstanceAs (Decidable (_ = _))
  | .release _ _ => inferInstanceAs (Decidable (_ = _))
  | .timeout _ => inferInstanceAs (Decidable (_ = _))

def sampleInit (flags : κ → IpcFlag) (initPriority : Thread → ℕ) : MutexState κ where
  core := ⟨fun t => ⟨.ready, .eok, initPriority t, false⟩, fun _ => []⟩
  mutexes := fun m => rtMutexInit (flags m)

def sampleRun (flags : κ → IpcFlag) (initPriority : Thread → ℕ)
    (guard : MutexState κ → Action κ → Prop) [∀ s action, Decidable (guard s action)]
    (actions : List (Action κ)) : Option (MutexState κ) :=
  actions.foldlM
    (fun s action => if guard s action ∧ action.Enabled s then execute s action else none)
    (sampleInit flags initPriority)

theorem reachable_sampleRun {flags : κ → IpcFlag} {initPriority : Thread → ℕ}
    {guard : MutexState κ → Action κ → Prop} [∀ s action, Decidable (guard s action)]
    {actions : List (Action κ)} (hrun : sampleRun flags initPriority guard actions = some s) :
    (mutexSystem flags initPriority).Reachable guard s := by
  have hstart : (mutexSystem flags initPriority).init (sampleInit flags initPriority) :=
    ⟨fun _ => rfl, fun _ => ⟨rfl, rfl, rfl⟩, fun _ => rfl⟩
  apply TransitionSystem.Reachable.foldlM _ (.start hstart) hrun
  intro s action s' hstep
  split_ifs at hstep with henabled
  exact ⟨henabled.1, henabled.2, hstep⟩

theorem ownershipConsistent_after_handOver : ∃ s : MutexState Unit,
      (mutexSystem (fun _ => .prio) (fun _ => 10)).Reachable (fun _ _ => True) s ∧
      (s.mutexes ()).owner = some ⟨2, by decide⟩ ∧ OwnershipConsistent s := by
  have hrun : (sampleRun (fun _ : Unit => .prio) (fun _ => 10) (fun _ _ => True)
      [.take ⟨1, by decide⟩ () 0, .take ⟨2, by decide⟩ () (-1),
        .take ⟨3, by decide⟩ () 5, .timeout ⟨3, by decide⟩,
        .release ⟨1, by decide⟩ ()]).map
        (fun s => (s.mutexes ()).owner) = some (some ⟨2, by decide⟩) := by decide
  rcases map_eq_some_iff.mp hrun with ⟨s, hs, howner⟩
  have hreach := reachable_sampleRun hs
  exact ⟨s, hreach, howner, ownershipConsistent_of_reachable _ _ hreach⟩

end RtThread.Mutex
