import RtThread.CondModel

/-!
# Wake-ups by a condition

Between the release of its mutex and `rt_sem_take` a thread cannot be resumed by name: a
signal or a broadcast can only leave a token there, which any thread may take that waits
later.
-/

namespace RtThread.Cond

open Function CondState TransitionSystem

/-- The threads which use one mutex and one condition.  `notified` tells that a signal or a
broadcast has come since the thread released the mutex. -/
structure MonitorState (κ : Type) where
  owner : Option κ
  cond : CondState κ
  notified : κ → Bool

variable {κ : Type} [DecidableEq κ]

def Waiting (s : MonitorState κ) (t : κ) : Prop :=
  s.cond.waits t = .released ∨ s.cond.waits t = .suspended

instance decidableWaiting (s : MonitorState κ) (t : κ) : Decidable (Waiting s t) :=
  inferInstanceAs (Decidable (_ ∨ _))

def notifyAll (s : MonitorState κ) (cond : CondState κ) : MonitorState κ where
  owner := s.owner
  cond := cond
  notified t := decide (Waiting s t) || s.notified t

/-- The mutex is locked and unlocked; `wait` releases it in `pthread_cond_wait`, `take` is
`rt_sem_take`, and `relock` takes the mutex again and returns. -/
inductive Action (κ : Type) where
  | lock (t : κ)
  | unlock (t : κ)
  | wait (t : κ)
  | take (t : κ)
  | relock (t : κ) (result : ℤ)
  | signal (t : κ)
  | broadcast (t : κ)
  deriving DecidableEq

def Action.thread : Action κ → κ
  | .lock t => t
  | .unlock t => t
  | .wait t => t
  | .take t => t
  | .relock t _ => t
  | .signal t => t
  | .broadcast t => t

def Action.Enabled (s : MonitorState κ) : Action κ → Prop
  | .lock t => s.owner = none ∧ s.cond.waits t = .outside
  | .unlock t => s.owner = some t
  | .wait t => s.owner = some t
  | .take t => s.cond.waits t = .released
  | .relock t result => s.owner = none ∧ s.cond.waits t = .taken result
  | .signal t => s.owner = some t
  | .broadcast t => s.owner = some t

instance decidableEnabled (s : MonitorState κ) (action : Action κ) :
    Decidable (action.Enabled s) := by
  cases action <;> unfold Action.Enabled <;> infer_instance

def execute (s : MonitorState κ) : Action κ → MonitorState κ
  | .lock t => { s with owner := some t }
  | .unlock _ => { s with owner := none }
  | .wait t =>
    { owner := none
      cond := s.cond.setWait t .released
      notified := update s.notified t false }
  | .take t => { s with cond := s.cond.rtSemTake t }
  | .relock t _ => { s with owner := some t, cond := s.cond.setWait t .outside }
  | .signal _ => notifyAll s s.cond.pthreadCondSignal
  | .broadcast _ => notifyAll s s.cond.pthreadCondBroadcast

def monitorSystem (κ : Type) [DecidableEq κ] : TransitionSystem (MonitorState κ) (Action κ) where
  init s := s.owner = none ∧ s.cond.value = 0 ∧ s.cond.suspendThread = [] ∧
      (∀ t, s.cond.waits t = .outside) ∧ ∀ t, s.notified t = false
  step s action s' := action.Enabled s ∧ s' = execute s action

def OthersReach (t : κ) (s : MonitorState κ) : MonitorState κ → Prop :=
  { monitorSystem κ with init := (· = s) }.Reachable fun _ action => action.thread ≠ t

def AbleToReturn (s : MonitorState κ) (t : κ) : Prop :=
  ∀ s', OthersReach t s s' → (∃ result, s'.cond.waits t = .taken result) ∨
      s'.cond.waits t = .released ∧ 0 < s'.cond.value

/-- Only a notified thread gets past its wait. -/
def StaysBlocked (s : MonitorState κ) : Prop :=
  ∀ t result, s.cond.waits t = .taken result → s.notified t = true

/-- A broadcast makes all waiting threads able to return, a signal one of them, and no thread
returns without either. -/
def WakesRightly (s : MonitorState κ) (action : Action κ) (s' : MonitorState κ) : Prop :=
  StaysBlocked s' ∧ match action with
    | .broadcast _ => ∀ t, Waiting s t → AbleToReturn s' t
    | .signal _ => (∃ t, Waiting s t) → ∃ t, Waiting s t ∧ AbleToReturn s' t
    | _ => True

def NoneBetween (s : MonitorState κ) : Prop := ∀ t, s.cond.waits t ≠ .released

/-- A signal finds a suspended thread or no thread in between, a broadcast finds none in
between, and a thread which takes the semaphore finds no token. -/
def FindsSuspended (s : MonitorState κ) : Action κ → Prop
  | .signal _ => s.cond.suspendThread ≠ [] ∨ NoneBetween s
  | .broadcast _ => NoneBetween s
  | .take _ => s.cond.value = 0
  | _ => True

variable {s s' : MonitorState κ} {t u : κ} {action : Action κ}

/-- A thread that holds the mutex waits for nothing. -/
structure MonitorInv (s : MonitorState κ) : Prop where
  linked : s.cond.Linked
  owner : ∀ t, s.owner = some t → s.cond.waits t = .outside

theorem waits_of_release {c : CondState κ} (hlinked : c.Linked) (ht : c.waits t ≠ .suspended) :
    c.rtSemRelease.waits t = c.waits t := by
  cases hqueue : c.suspendThread with
  | nil => rw [rtSemRelease_of_nil hqueue]
  | cons u rest =>
    rw [rtSemRelease_of_cons hqueue]
    refine setWait_of_ne _ fun htu => ht ?_
    rw [← hlinked.mem_iff, hqueue, htu]
    exact List.mem_cons_self

theorem released_of_release {c : CondState κ} (ht : c.rtSemRelease.waits t = .released) :
    c.waits t = .released := by
  cases hqueue : c.suspendThread with
  | nil => rwa [rtSemRelease_of_nil hqueue] at ht
  | cons u rest =>
    rw [rtSemRelease_of_cons hqueue] at ht
    by_cases htu : t = u
    · subst htu
      nomatch (setWait_self _ _ _).symm.trans ht
    · exact (setWait_of_ne _ htu).symm.trans ht

theorem waits_of_take {c : CondState κ} (hut : u ≠ t) : (c.rtSemTake t).waits u = c.waits u := by
  unfold rtSemTake
  split_ifs
  · exact setWait_of_ne _ hut
  · exact setWait_of_ne _ hut

section

variable (hinv : MonitorInv s)
include hinv

theorem waits_of_others (hstep : (monitorSystem κ).step s action s')
    (hother : action.thread ≠ t) (ht : s.cond.waits t ≠ .suspended) :
    s'.cond.waits t = s.cond.waits t := by
  obtain ⟨-, rfl⟩ := hstep
  cases action with
  | lock u | unlock u => rfl
  | wait u => exact setWait_of_ne _ (Ne.symm hother)
  | take u => exact waits_of_take (Ne.symm hother)
  | relock u result => exact setWait_of_ne _ (Ne.symm hother)
  | signal u => exact waits_of_release hinv.linked ht
  | broadcast u =>
    obtain ⟨-, -, -, hwaits⟩ := pthreadCondBroadcast_spec hinv.linked
    exact (hwaits t).trans (if_neg ht)

theorem MonitorInv.linked_step
    (hstep : (monitorSystem κ).step s action s') : s'.cond.Linked := by
  obtain ⟨henabled, rfl⟩ := hstep
  cases action with
  | lock t | unlock t => exact hinv.linked
  | wait t =>
    have hout := hinv.owner t henabled
    exact hinv.linked.setWait _ (by rw [hout]; exact Wait.noConfusion) Wait.noConfusion
  | take t => exact hinv.linked.rtSemTake henabled
  | relock t result =>
    exact hinv.linked.setWait _ (by rw [henabled.2]; exact Wait.noConfusion) Wait.noConfusion
  | signal t => exact hinv.linked.rtSemRelease
  | broadcast t => exact (pthreadCondBroadcast_spec hinv.linked).1

theorem MonitorInv.owner_step
    (hstep : (monitorSystem κ).step s action s') (hu : s'.owner = some u) :
    s'.cond.waits u = .outside := by
  have hkept : s.owner = some u → action.thread ≠ u → s'.cond.waits u = .outside := by
    intro howner hother
    have hout := hinv.owner u howner
    exact (waits_of_others hinv hstep hother (by rw [hout]; exact Wait.noConfusion)).trans hout
  obtain ⟨henabled, rfl⟩ := hstep
  cases action with
  | lock t =>
    rw [← Option.some.inj hu]
    exact henabled.2
  | unlock t | wait t => exact absurd hu (by simp [execute])
  | take t =>
    refine hkept hu fun htu => ?_
    have hout := hinv.owner u hu
    rw [← htu] at hout
    nomatch hout.symm.trans henabled
  | relock t result =>
    rw [← Option.some.inj hu]
    exact setWait_self _ _ _
  | signal t =>
    have hout := hinv.owner u hu
    exact (waits_of_release hinv.linked (by rw [hout]; exact Wait.noConfusion)).trans hout
  | broadcast t =>
    obtain ⟨-, -, -, hwaits⟩ := pthreadCondBroadcast_spec hinv.linked
    have hout := hinv.owner u hu
    exact (hwaits u).trans (by rw [hout]; rfl)

theorem MonitorInv.step (hstep : (monitorSystem κ).step s action s') :
    MonitorInv s' :=
  ⟨hinv.linked_step hstep, fun _ hu => hinv.owner_step hstep hu⟩

end

theorem monitorInv_init (hinit : (monitorSystem κ).init s) : MonitorInv s := by
  obtain ⟨howner, hvalue, hqueue, hwaits, -⟩ := hinit
  refine ⟨⟨?_, fun t => ?_, fun hne => absurd hqueue hne, ?_⟩, fun t _ => hwaits t⟩
  · rw [hqueue]
    exact List.nodup_nil
  · simp [hqueue, hwaits]
  · rw [hvalue]
    decide

theorem OthersReach.refl (t : κ) (s : MonitorState κ) : OthersReach t s s := .start rfl

theorem OthersReach.trans {s₁ s₂ s₃ : MonitorState κ} (hfirst : OthersReach t s₁ s₂)
    (hsecond : OthersReach t s₂ s₃) : OthersReach t s₁ s₃ := by
  induction hsecond with
  | start hinit => exact hinit ▸ hfirst
  | next _ hguard hstep ih => exact ih.next hguard hstep

theorem OthersReach.of_step (hstep : (monitorSystem κ).step s action s')
    (hother : action.thread ≠ t) : OthersReach t s s' :=
  .next (OthersReach.refl t s) hother hstep

theorem ableToReturn_of_taken (result : ℤ) (hinv : MonitorInv s)
    (htaken : s.cond.waits t = .taken result) : AbleToReturn s t := by
  intro s' hreach
  have hkept : MonitorInv s' ∧ s'.cond.waits t = .taken result := by
    refine hreach.invariant (P := fun s' => MonitorInv s' ∧ s'.cond.waits t = .taken result)
      (fun s' hinit => ?_) fun s₁ action s₂ hs hother hstep => ?_
    · rw [show s' = s from hinit]
      exact ⟨hinv, htaken⟩
    · have hout : s₁.cond.waits t ≠ .suspended := by
        rw [hs.2]
        exact Wait.noConfusion
      exact ⟨hs.1.step hstep, (waits_of_others hs.1 hstep hother hout).trans hs.2⟩
  exact .inl ⟨result, hkept.2⟩

section

variable (hinv : MonitorInv s)
include hinv

theorem released_of_others (hstep : (monitorSystem κ).step s action s')
    (hother : action.thread ≠ t) (ht : s.cond.waits t = .released) : s'.cond.waits t = .released :=
  (waits_of_others hinv hstep hother (by rw [ht]; exact Wait.noConfusion)).trans ht

theorem exists_token_taken (howner : s.owner = some u) (hut : u ≠ t)
    (ht : s.cond.waits t = .released) (hpos : 0 < s.cond.value) :
    ∃ s', OthersReach t s s' ∧ MonitorInv s' ∧ s'.owner = some u ∧
      s'.cond.waits t = .released ∧ s'.cond.value = s.cond.value - 1 := by
  have hwait : (monitorSystem κ).step s (.wait u) (execute s (.wait u)) := ⟨howner, rfl⟩
  have hinv₁ := hinv.step hwait
  have ht₁ := released_of_others hinv hwait hut ht
  generalize hs₁ : execute s (.wait u) = s₁ at hwait hinv₁ ht₁
  have hfree : s₁.owner = none := by rw [← hs₁]; rfl
  have hvalue : s₁.cond.value = s.cond.value := by rw [← hs₁]; rfl
  have hu : s₁.cond.waits u = .released := by
    rw [← hs₁]
    exact setWait_self _ _ _
  have htake : (monitorSystem κ).step s₁ (.take u) (execute s₁ (.take u)) := ⟨hu, rfl⟩
  have hinv₂ := hinv₁.step htake
  have ht₂ := released_of_others hinv₁ htake hut ht₁
  have htaken : (execute s₁ (.take u)).cond.waits u = .taken RT_EOK ∧
      (execute s₁ (.take u)).cond.value = s.cond.value - 1 := by
    rw [execute, rtSemTake_of_pos u (hvalue ▸ hpos), hvalue]
    exact ⟨setWait_self _ _ _, rfl⟩
  generalize hs₂ : execute s₁ (.take u) = s₂ at htake hinv₂ ht₂ htaken
  have hfree₂ : s₂.owner = none := by rw [← hs₂]; exact hfree
  have hrelock : (monitorSystem κ).step s₂ (.relock u RT_EOK) (execute s₂ (.relock u RT_EOK)) :=
    ⟨⟨hfree₂, htaken.1⟩, rfl⟩
  refine ⟨_, ?_, hinv₂.step hrelock, rfl, released_of_others hinv₂ hrelock hut ht₂, htaken.2⟩
  exact (OthersReach.of_step hwait hut).trans
    ((OthersReach.of_step htake hut).trans (OthersReach.of_step hrelock hut))

theorem exists_drained (howner : s.owner = some u) (hut : u ≠ t)
    (ht : s.cond.waits t = .released) :
    ∃ s', OthersReach t s s' ∧ s'.cond.waits t = .released ∧ s'.cond.value = 0 := by
  induction hvalue : s.cond.value generalizing s with
  | zero => exact ⟨s, OthersReach.refl t s, ht, hvalue⟩
  | succ value ih =>
    obtain ⟨s₁, hreach₁, hinv₁, howner₁, ht₁, hvalue₁⟩ :=
      exists_token_taken hinv howner hut ht (by omega)
    obtain ⟨s₂, hreach₂, ht₂, hzero⟩ := ih hinv₁ howner₁ ht₁ (by omega)
    exact ⟨s₂, hreach₁.trans hreach₂, ht₂, hzero⟩

theorem not_ableToReturn_of_released (howner : s.owner = some u)
    (ht : s.cond.waits t = .released) : ¬AbleToReturn s t := by
  have hut : u ≠ t := by
    rintro rfl
    nomatch (hinv.owner u howner).symm.trans ht
  intro hable
  obtain ⟨s', hreach, ht', hzero⟩ := exists_drained hinv howner hut ht
  rcases hable s' hreach with ⟨result, htaken⟩ | ⟨-, hpos⟩
  · nomatch ht'.symm.trans htaken
  · exact absurd hzero hpos.ne'

end

theorem monitorInv_of_reachable {guard : MonitorState κ → Action κ → Prop}
    (hreach : (monitorSystem κ).Reachable guard s) : MonitorInv s :=
  hreach.invariant (fun _ => monitorInv_init) fun _ _ _ hinv _ hstep => hinv.step hstep

/-- No released thread has been notified while a count is left over. -/
structure WakeInv (s : MonitorState κ) : Prop where
  monitor : MonitorInv s
  blocked : StaysBlocked s
  fresh : 0 < s.cond.value → ∀ t, s.cond.waits t = .released → s.notified t = false

theorem wakeInv_init (hinit : (monitorSystem κ).init s) : WakeInv s := by
  have hmonitor := monitorInv_init hinit
  obtain ⟨-, -, -, hwaits, hnotified⟩ := hinit
  refine ⟨hmonitor, fun t result htaken => ?_, fun _ t _ => hnotified t⟩
  rw [hwaits] at htaken
  cases htaken

omit [DecidableEq κ] in
theorem StaysBlocked.notifyAll {c : CondState κ} (hblocked : StaysBlocked s)
    (hkept : ∀ t, s.cond.waits t ≠ .suspended → c.waits t = s.cond.waits t) :
    StaysBlocked (notifyAll s c) := by
  intro t result htaken
  by_cases hwaiting : Waiting s t
  · simp [Cond.notifyAll, hwaiting]
  · have hout : s.cond.waits t ≠ .suspended := fun h => hwaiting (.inr h)
    have hbefore := hblocked t result ((hkept t hout).symm.trans htaken)
    simp [Cond.notifyAll, hbefore]

/-- Nobody who was notified sleeps on where a signal finds a suspended thread. -/
theorem WakeInv.step (hinv : WakeInv s) (hguard : FindsSuspended s action)
    (hstep : (monitorSystem κ).step s action s') : WakeInv s' := by
  have hmonitor := hinv.monitor.step hstep
  have hlinked := hinv.monitor.linked
  obtain ⟨henabled, rfl⟩ := hstep
  cases action with
  | lock t | unlock t => exact ⟨hmonitor, hinv.blocked, hinv.fresh⟩
  | wait t =>
    refine ⟨hmonitor, fun u result hu => ?_, fun hpos u hu => ?_⟩
    · by_cases hut : u = t
      · subst hut
        nomatch (setWait_self _ _ _).symm.trans hu
      · have hnotified := hinv.blocked u result ((setWait_of_ne _ hut).symm.trans hu)
        exact (update_of_ne hut _ _).trans hnotified
    · by_cases hut : u = t
      · subst hut
        exact update_self _ _ _
      · have hnotified := hinv.fresh hpos u ((setWait_of_ne _ hut).symm.trans hu)
        exact (update_of_ne hut _ _).trans hnotified
  | take t =>
    have hzero : s.cond.value = 0 := hguard
    refine ⟨hmonitor, fun u result hu => ?_, fun hpos => ?_⟩
    · rw [execute, rtSemTake_of_zero t hzero] at hu
      by_cases hut : u = t
      · subst hut
        nomatch (setWait_self _ _ _).symm.trans hu
      · exact hinv.blocked u result ((setWait_of_ne _ hut).symm.trans hu)
    · rw [execute, rtSemTake_of_zero t hzero] at hpos
      exact absurd hzero hpos.ne'
  | relock t result =>
    refine ⟨hmonitor, fun u result hu => ?_, fun hpos u hu => ?_⟩
    · by_cases hut : u = t
      · subst hut
        nomatch (setWait_self _ _ _).symm.trans hu
      · exact hinv.blocked u result ((setWait_of_ne _ hut).symm.trans hu)
    · by_cases hut : u = t
      · subst hut
        nomatch (setWait_self _ _ _).symm.trans hu
      · exact hinv.fresh hpos u ((setWait_of_ne _ hut).symm.trans hu)
  | signal t =>
    refine ⟨hmonitor, hinv.blocked.notifyAll fun u hu => waits_of_release hlinked hu, ?_⟩
    intro hpos u hu
    rcases hguard with hqueue | hnone
    · obtain ⟨v, rest, hcons⟩ := List.exists_cons_of_ne_nil hqueue
      change 0 < s.cond.rtSemRelease.value at hpos
      rw [rtSemRelease_of_cons hcons] at hpos
      exact absurd (hlinked.value_zero hqueue) hpos.ne'
    · change s.cond.rtSemRelease.waits u = .released at hu
      exact absurd (released_of_release hu) (hnone u)
  | broadcast t =>
    obtain ⟨-, -, -, hwaits⟩ := pthreadCondBroadcast_spec hlinked
    refine ⟨hmonitor, hinv.blocked.notifyAll fun u hu => (hwaits u).trans (if_neg hu), ?_⟩
    intro _ u hu
    change s.cond.pthreadCondBroadcast.waits u = .released at hu
    rw [hwaits] at hu
    split_ifs at hu
    exact absurd hu (hguard u)

theorem not_ableToReturn_of_step (hinv : MonitorInv s) (hstep : (monitorSystem κ).step s action s')
    (howner : s'.owner = some u) (hother : action.thread ≠ t)
    (ht : s.cond.waits t = .released) : ¬AbleToReturn s' t :=
  not_ableToReturn_of_released (hinv.step hstep) howner (released_of_others hinv hstep hother ht)

omit [DecidableEq κ] in
theorem ne_of_owner (hinv : MonitorInv s) (howner : s.owner = some u)
    (ht : s.cond.waits t = .released) : u ≠ t := by
  rintro rfl
  nomatch (hinv.owner u howner).symm.trans ht

theorem WakeInv.wakesRightly (hinv : WakeInv s) (hguard : FindsSuspended s action)
    (hstep : (monitorSystem κ).step s action s') : WakesRightly s action s' := by
  have hinv' := hinv.step hguard hstep
  refine ⟨hinv'.blocked, ?_⟩
  have hlinked := hinv.monitor.linked
  cases action with
  | signal u =>
    rintro ⟨t, hwaiting⟩
    have hsuspended : s.cond.suspendThread ≠ [] := by
      rcases hguard with hqueue | hnone
      · exact hqueue
      · have ht := hwaiting.resolve_left (hnone t)
        exact List.ne_nil_of_mem ((hlinked.mem_iff t).mpr ht)
    obtain ⟨v, rest, hcons⟩ := List.exists_cons_of_ne_nil hsuspended
    have hv : s.cond.waits v = .suspended := (hlinked.mem_iff v).mp (by simp [hcons])
    refine ⟨v, .inr hv, ableToReturn_of_taken RT_EOK hinv'.monitor ?_⟩
    rw [hstep.2]
    change s.cond.rtSemRelease.waits v = _
    rw [rtSemRelease_of_cons hcons]
    exact setWait_self _ _ _
  | broadcast u =>
    intro t hwaiting
    obtain ⟨-, -, -, hwaits⟩ := pthreadCondBroadcast_spec hlinked
    have ht := hwaiting.resolve_left (hguard t)
    refine ableToReturn_of_taken RT_EOK hinv'.monitor ?_
    rw [hstep.2]
    exact (hwaits t).trans (if_pos ht)
  | _ => trivial

theorem WakeInv.findsSuspended (hinv : WakeInv s) (hstep : (monitorSystem κ).step s action s')
    (hright : WakesRightly s action s') : FindsSuspended s action := by
  have hlinked := hinv.monitor.linked
  cases action with
  | take t =>
    -- A token is taken by a thread which nobody has told.
    by_contra hvalue
    have hpos : 0 < s.cond.value := Nat.pos_of_ne_zero hvalue
    have htaken : s'.cond.waits t = .taken RT_EOK := by
      rw [hstep.2, execute, rtSemTake_of_pos t hpos]
      exact setWait_self _ _ _
    have htold := hright.1 t RT_EOK htaken
    have hfresh := hinv.fresh hpos t hstep.1
    rw [hstep.2] at htold
    nomatch hfresh.symm.trans htold
  | signal u =>
    by_contra hguard
    rw [FindsSuspended, not_or, not_not] at hguard
    obtain ⟨hempty, hbetween⟩ := hguard
    obtain ⟨t, ht⟩ := not_forall.mp hbetween
    obtain ⟨v, hwaiting, hable⟩ := hright.2 ⟨t, .inl (not_not.mp ht)⟩
    have hv : s.cond.waits v = .released := by
      refine hwaiting.resolve_right fun hsuspended => ?_
      rw [← hlinked.mem_iff, hempty] at hsuspended
      exact List.not_mem_nil hsuspended
    have howner : s'.owner = some u := by rw [hstep.2]; exact hstep.1
    exact not_ableToReturn_of_step hinv.monitor hstep howner
      (ne_of_owner hinv.monitor hstep.1 hv) hv hable
  | broadcast u =>
    intro t ht
    have howner : s'.owner = some u := by rw [hstep.2]; exact hstep.1
    exact not_ableToReturn_of_step hinv.monitor hstep howner
      (ne_of_owner hinv.monitor hstep.1 ht) ht (hright.2 t (.inl ht))
  | _ => trivial

/-- A step wakes the threads which it has to wake, and no others, if and only if signals and
broadcasts find the waiting threads suspended and no token is left for a thread which takes the
semaphore. -/
theorem wakesRightly_iff {κ : Type} [DecidableEq κ] (s : MonitorState κ)
    (hreach : (monitorSystem κ).Reachable FindsSuspended s) :
    StaysBlocked s ∧ ∀ action s', (monitorSystem κ).step s action s' →
      (WakesRightly s action s' ↔ FindsSuspended s action) := by
  have hinv : WakeInv s :=
    hreach.invariant (fun _ => wakeInv_init) fun _ _ _ hinv hguard hstep => hinv.step hguard hstep
  exact ⟨hinv.blocked, fun _ _ hstep =>
    ⟨hinv.findsSuspended hstep, fun hguard => hinv.wakesRightly hguard hstep⟩⟩

def sampleInit : MonitorState Bool := ⟨none, ⟨0, [], fun _ => .outside⟩, fun _ => false⟩

theorem init_sampleInit : (monitorSystem Bool).init sampleInit :=
  ⟨rfl, rfl, rfl, fun _ => rfl, fun _ => rfl⟩

theorem wakesRightly_of_signal :
    ∃ s, (monitorSystem Bool).Reachable FindsSuspended s ∧ s.cond.waits false = .suspended ∧
      s.owner = some true ∧ StaysBlocked s ∧ ∀ action s', (monitorSystem Bool).step s action s' →
        (WakesRightly s action s' ↔ FindsSuspended s action) := by
  have hrun : (tryRun
      (fun s action => decide (action.Enabled s) && match action with
        | .lock _ | .wait _ => true
        | .take _ => s.cond.value == 0
        | _ => false) execute
      [.lock false, .wait false, .take false, .lock true] sampleInit).map
      (fun s => (s.cond.waits false, s.owner)) = some (.suspended, some true) := by
    decide
  obtain ⟨s, hreach, hview⟩ := exists_tryRun FindsSuspended init_sampleInit hrun
    (by
      intro s action htest
      rw [Bool.and_eq_true] at htest
      refine ⟨?_, of_decide_eq_true htest.1, rfl⟩
      cases action with
      | take t => exact beq_iff_eq.mp htest.2
      | signal t | broadcast t => cases htest.2
      | _ => trivial)
  rw [Prod.mk.injEq] at hview
  exact ⟨s, hreach, hview.1, hview.2, wakesRightly_iff s hreach⟩

/-- A broadcast comes before a thread has got to `rt_sem_take`; and the token of a broadcast
without a waiting thread lets a thread return which waits later. -/
theorem not_wakesRightly_of_broadcast :
    (∃ s s', (monitorSystem Bool).Reachable (fun _ _ => True) s ∧
      (monitorSystem Bool).step s (.broadcast true) s' ∧ ¬WakesRightly s (.broadcast true) s') ∧
    ∃ s, (monitorSystem Bool).Reachable (fun _ _ => True) s ∧ ¬StaysBlocked s := by
  have hsound : ∀ (s : MonitorState Bool) (action : Action Bool), decide (action.Enabled s) = true →
      True ∧ (monitorSystem Bool).step s action (execute s action) :=
    fun _ _ htest => ⟨trivial, of_decide_eq_true htest, rfl⟩
  constructor
  · have hrun : (tryRun (fun s action => decide (action.Enabled s)) execute
        [.lock false, .wait false, .lock true] sampleInit).map
        (fun s => (s.cond.waits false, s.owner)) = some (.released, some true) := by
      decide
    obtain ⟨s, hreach, hview⟩ :=
      exists_tryRun (fun _ _ => True) init_sampleInit hrun hsound
    rw [Prod.mk.injEq] at hview
    have hstep : (monitorSystem Bool).step s (.broadcast true) (execute s (.broadcast true)) :=
      ⟨hview.2, rfl⟩
    refine ⟨s, _, hreach, hstep, fun hright => ?_⟩
    exact not_ableToReturn_of_step (monitorInv_of_reachable hreach) hstep hview.2
      (by decide) hview.1 (hright.2 false (.inl hview.1))
  · have hrun : (tryRun (fun s action => decide (action.Enabled s)) execute
        [.lock true, .broadcast true, .unlock true, .lock false, .wait false, .take false]
          sampleInit).map
        (fun s => (s.cond.waits false, s.notified false)) = some (.taken RT_EOK, false) := by
      decide
    obtain ⟨s, hreach, hview⟩ :=
      exists_tryRun (fun _ _ => True) init_sampleInit hrun hsound
    rw [Prod.mk.injEq] at hview
    refine ⟨s, hreach, fun hblocked => ?_⟩
    nomatch hview.2.symm.trans (hblocked false RT_EOK hview.1)

end RtThread.Cond
