import RtThread.SchedulerModel
import RtThread.GuardedRun

/-!
# The bitmap over the life of threads

Threads are created in memory with any contents, started, suspended, resumed, given
other priorities, and closed in any state.  `rt_schedule_remove_thread` is also
called for threads which are in no ready queue, and clears what the masks of the
thread name; these masks are computed only when a thread is started or given a
priority.
-/

namespace RtThread.Scheduler

open Function Option Bitmap

def rtThreadInit (s : SchedState) (t : Thread) (priority : ℕ) (masks : Masks) : SchedState :=
  s.setThread t ⟨.init, priority, priority, masks⟩

def rtThreadSuspend (n : ℕ) (s : SchedState) (t : Thread) : Option SchedState :=
  if (s.threads t).stat ≠ .ready then some s
  else rtScheduleRemoveThread n (s.setThread t { s.threads t with stat := .suspend }) t

def rtThreadResume (n : ℕ) (s : SchedState) (t : Thread) : Option SchedState :=
  if (s.threads t).stat ≠ .suspend then some s
  else rtScheduleInsertThread n (s.unlink t) t

def rtThreadStartup (n : ℕ) (s : SchedState) (t : Thread) : Option SchedState :=
  let b := s.threads t
  rtThreadResume n (s.setThread t
      { b with
        stat := .suspend
        currentPriority := b.initPriority
        masks := masksOf n b.initPriority }) t

def rtThreadTimeout (n : ℕ) (s : SchedState) (t : Thread) : Option SchedState :=
  rtScheduleInsertThread n (s.unlink t) t

def closeThread (n : ℕ) (s : SchedState) (t : Thread) : Option SchedState :=
  (rtScheduleRemoveThread n s t).map fun s =>
    s.setThread t { s.threads t with stat := .close }

def rtThreadExit (n : ℕ) (s : SchedState) (t : Thread) : Option SchedState := closeThread n s t

def rtThreadDetach (n : ℕ) (s : SchedState) (t : Thread) : Option SchedState := closeThread n s t

def rtThreadDelete (n : ℕ) (s : SchedState) (t : Thread) : Option SchedState := closeThread n s t

namespace Life

inductive Action where
  | create (t : Thread) (priority : ℕ) (masks : Masks)
  | startup (t : Thread)
  | suspend (t : Thread)
  | resume (t : Thread)
  | control (t : Thread) (priority : ℕ)
  | timeout (t : Thread)
  | exit (t : Thread)
  | detach (t : Thread)
  | delete (t : Thread)

/-- A thread is created where there is none, started once, and times out or exits
only after that; the rest is allowed in every state. -/
def Action.Enabled (n : ℕ) (s : SchedState) : Action → Prop
  | .create t priority _ =>
    ((s.threads t).stat = .absent ∨ (s.threads t).stat = .close) ∧ priority < n
  | .startup t => (s.threads t).stat = .init
  | .suspend t => (s.threads t).stat ≠ .absent
  | .resume t => (s.threads t).stat ≠ .absent
  | .control t priority => (s.threads t).stat ≠ .absent ∧ priority < n
  | .timeout t => (s.threads t).stat = .suspend
  | .exit t => (s.threads t).stat ≠ .absent ∧ (s.threads t).stat ≠ .init
  | .detach t => (s.threads t).stat ≠ .absent
  | .delete t => (s.threads t).stat ≠ .absent

def execute (n : ℕ) (s : SchedState) : Action → Option SchedState
  | .create t priority masks => some (rtThreadInit s t priority masks)
  | .startup t => rtThreadStartup n s t
  | .suspend t => rtThreadSuspend n s t
  | .resume t => rtThreadResume n s t
  | .control t priority => rtThreadControl n s t priority
  | .timeout t => rtThreadTimeout n s t
  | .exit t => rtThreadExit n s t
  | .detach t => rtThreadDetach n s t
  | .delete t => rtThreadDelete n s t

def lifeSystem (n : ℕ) : TransitionSystem SchedState Action where
  init s := (∀ p, s.queue p = []) ∧ s.bits.group = 0 ∧ (∀ i, s.bits.table i = 0) ∧
      ∀ t, (s.threads t).stat = .absent
  step s action s' := action.Enabled n s ∧ execute n s action = some s'

/-- The ready bit of every priority is set exactly when its list is not empty; above
32 priorities the group bit is set when a list of the group is not empty. -/
def BitsMatch (n : ℕ) (s : SchedState) : Prop :=
  ∀ p < n, (n ≤ 32 → (s.bits.group.getLsbD p = true ↔ s.queue p ≠ [])) ∧ (32 < n →
      ((s.bits.table (p / 8)).getLsbD (p % 8) = true ↔ s.queue p ≠ []) ∧
      (s.bits.group.getLsbD (p / 8) = true ↔ ∃ r < n, r / 8 = p / 8 ∧ s.queue r ≠ []))

def Harmless (n : ℕ) (b : ReadyBits) (m : Masks) : Prop :=
  ¬OutsideTable n m ∧ (n ≤ 32 → b.group &&& m.numberMask = 0) ∧
    (32 < n → b.table m.number &&& m.highMask = 0 ∧
      (b.table m.number = 0 → b.group &&& m.numberMask = 0))

/-- A thread which is not ready is closed while the list of its priority is empty only
with masks that name no ready bit. -/
def ClosedHarmlessly (n : ℕ) (s : SchedState) (t : Thread) : Prop :=
  (s.threads t).stat ≠ .ready → s.queue (s.threads t).currentPriority = [] →
    Harmless n s.bits (s.threads t).masks

def MasksNameNoOther (n : ℕ) (s : SchedState) : Action → Prop
  | .exit t => ClosedHarmlessly n s t
  | .detach t => ClosedHarmlessly n s t
  | .delete t => ClosedHarmlessly n s t
  | _ => True

variable {n p : ℕ} {b : ReadyBits} {m : Masks} {s s' : SchedState} {q : ReadyQueue}
  {t u : Thread} {action : Action}

theorem and_not_of_and_eq_zero {w : ℕ} {x y : BitVec w} (hzero : x &&& y = 0) : x &&& ~~~y = x := by
  apply BitVec.eq_of_getLsbD_eq
  intro i hi
  have hbit : (x &&& y).getLsbD i = false := by
    rw [hzero]
    simp
  rw [BitVec.getLsbD_and] at hbit
  rw [BitVec.getLsbD_and, BitVec.getLsbD_not]
  cases hx : x.getLsbD i with
  | false => rfl
  | true =>
    rw [hx, Bool.true_and] at hbit
    rw [hbit]
    simp [hi]

theorem Harmless.clear (hharmless : Harmless n b m) : b.clear n m = b := by
  unfold ReadyBits.clear
  split_ifs with hn
  · rcases hharmless.2.2 hn with ⟨hbyte, hgroup⟩
    simp only [and_not_of_and_eq_zero hbyte, update_eq_self]
    split_ifs with hzero
    · rw [and_not_of_and_eq_zero (hgroup hzero)]
    · rfl
  · rw [and_not_of_and_eq_zero (hharmless.2.1 (by omega))]

theorem queue_lt (href : Refines n s q) (hne : s.queue p ≠ []) : p < n := by
  rcases List.exists_mem_of_ne_nil _ hne with ⟨t, ht⟩
  rcases href.mem_queue_iff.mp ht with ⟨hready, hpriority⟩
  rw [← hpriority]
  exact (href.masks t hready).2

theorem group_iff (hn : 32 < n) (href : Refines n s q) {g : ℕ} (hg : g < 32) :
    s.bits.group.getLsbD g = true ↔ ∃ r < n, r / 8 = g ∧ s.queue r ≠ [] := by
  rw [href.bits.group hn g hg, byte_ne_zero_iff]
  constructor
  · rintro ⟨i, hi, hbit⟩
    have hlist : s.queue (8 * g + i) ≠ [] := by
      apply (href.bits.two hn (8 * g + i) (by lia)).mp
      rw [show (8 * g + i) / 8 = g by lia, show (8 * g + i) % 8 = i by lia]
      exact hbit
    exact ⟨8 * g + i, queue_lt href hlist, by lia, hlist⟩
  · rintro ⟨r, -, rfl, hlist⟩
    exact ⟨r % 8, Nat.mod_lt r (by decide), (href.bits.two hn r (by lia)).mpr hlist⟩

theorem bitsMatch_of_refines (hn : n ≤ 256) (href : Refines n s q) : BitsMatch n s := by
  intro p hp
  constructor
  · exact fun hone => href.bits.one hone p (by lia)
  · exact fun htwo => ⟨href.bits.two htwo p (by lia), group_iff htwo href (by lia)⟩

theorem exists_getLsbD_of_and_ne_zero {w : ℕ} {x y : BitVec w} (hne : x &&& y ≠ 0) :
    ∃ i, i < w ∧ x.getLsbD i = true ∧ y.getLsbD i = true := by
  by_contra hnone
  push Not at hnone
  apply hne
  apply BitVec.eq_of_getLsbD_eq
  intro i hi
  change (x &&& y).getLsbD i = (0#w).getLsbD i
  rw [BitVec.getLsbD_and, BitVec.getLsbD_zero]
  cases hx : x.getLsbD i with
  | false => rfl
  | true => simpa using hnone i hi hx

theorem getLsbD_and_not_of_set {w i : ℕ} {x y : BitVec w} (hset : y.getLsbD i = true) :
    (x &&& ~~~y).getLsbD i = false := by
  rw [BitVec.getLsbD_and, BitVec.getLsbD_not, hset]
  simp

theorem harmless_of_bitsMatch (href : Refines n s q) (hinside : ¬OutsideTable n m)
    (hmatch : BitsMatch n { s with bits := s.bits.clear n m }) :
    Harmless n s.bits m := by
  refine ⟨hinside, ?_, ?_⟩
  · intro hone
    by_contra hne
    rcases exists_getLsbD_of_and_ne_zero hne with ⟨i, hi, hgroup, hmask⟩
    have hlist := (href.bits.one hone i hi).mp hgroup
    have hbit := ((hmatch i (queue_lt href hlist)).1 hone).mpr hlist
    simp only [ReadyBits.clear, if_neg (not_lt.mpr hone), getLsbD_and_not_of_set hmask] at hbit
    cases hbit
  · intro htwo
    have hnumber : m.number < 32 := by
      by_contra hge
      exact hinside ⟨htwo, not_lt.mp hge⟩
    have hbyte : s.bits.table m.number &&& m.highMask = 0 := by
      by_contra hne
      rcases exists_getLsbD_of_and_ne_zero hne with ⟨i, hi, hbit, hmask⟩
      have hquot : (8 * m.number + i) / 8 = m.number := by lia
      have hrem : (8 * m.number + i) % 8 = i := by lia
      have hlist : s.queue (8 * m.number + i) ≠ [] := by
        apply (href.bits.two htwo _ (by lia)).mp
        rw [hquot, hrem]
        exact hbit
      have hafter := ((hmatch _ (queue_lt href hlist)).2 htwo).1.mpr hlist
      simp only [ReadyBits.clear, if_pos htwo, hquot, hrem, update_self,
        getLsbD_and_not_of_set hmask] at hafter
      cases hafter
    refine ⟨hbyte, ?_⟩
    intro hzero
    by_contra hne
    rcases exists_getLsbD_of_and_ne_zero hne with ⟨g, hg, hgroup, hmask⟩
    rcases (group_iff htwo href hg).mp hgroup with ⟨r, hr, hrg, hlist⟩
    have hafter := ((hmatch r hr).2 htwo).2.mpr ⟨r, hr, rfl, hlist⟩
    have hcleared : s.bits.table m.number &&& ~~~m.highMask = 0 := by
      rw [and_not_of_and_eq_zero hbyte, hzero]
    simp only [ReadyBits.clear, if_pos htwo, if_pos hcleared, hrg,
      getLsbD_and_not_of_set hmask] at hafter
    cases hafter

theorem unlink_of_idle (href : Refines n s q) (hnot : t ∉ q.ready) : s.unlink t = s := by
  have hqueue : (fun p => (s.queue p).erase t) = s.queue := by
    funext p
    apply List.erase_of_not_mem
    rw [href.mem_queue_iff]
    exact fun h => hnot h.1
  unfold SchedState.unlink
  rw [hqueue]

theorem remove_setThread {block : ThreadBlock}
    (hpriority : block.currentPriority = (s.threads t).currentPriority)
    (hmasks : block.masks = (s.threads t).masks) :
    rtScheduleRemoveThread n (s.setThread t block) t =
      (rtScheduleRemoveThread n s t).map (fun s => s.setThread t block) := by
  unfold rtScheduleRemoveThread
  simp only [SchedState.setThread, SchedState.unlink, update_self, hpriority, hmasks]
  by_cases hempty : (s.queue (s.threads t).currentPriority).erase t = []
  · by_cases houtside : OutsideTable n (s.threads t).masks
    · simp [hempty, houtside]
    · simp [hempty, houtside]
  · simp [hempty]

/-- The ready threads are those of a ready queue, and every thread which has been
started has its masks. -/
structure LifeInv (n : ℕ) (s : SchedState) (q : ReadyQueue) : Prop where
  refines : Refines n s q
  ready_iff : ∀ t, t ∈ q.ready ↔ (s.threads t).stat = .ready
  suspended : ∀ t, (s.threads t).stat = .suspend →
    (s.threads t).masks = masksOf n (q.priority t) ∧ q.priority t < n
  initial : ∀ t, (s.threads t).stat = .init → (s.threads t).initPriority < n

namespace LifeInv

theorem setThread (hinv : LifeInv n s q) (t : Thread) (block : ThreadBlock)
    (hnot : (s.threads t).stat ≠ .ready) (hready : block.stat ≠ .ready)
    (hsuspended : block.stat = .suspend →
      block.masks = masksOf n block.currentPriority ∧ block.currentPriority < n)
    (hinitial : block.stat = .init → block.initPriority < n) :
    LifeInv n (s.setThread t block) (q.setPriority t block.currentPriority) := by
  have hidle : t ∉ q.ready := fun h => hnot ((hinv.ready_iff t).mp h)
  refine ⟨hinv.refines.setThread hidle block, ?_, ?_, ?_⟩
  · intro u
    by_cases hut : u = t
    · subst hut
      simpa [SchedState.setThread, ReadyQueue.setPriority, hready] using hidle
    · simpa [SchedState.setThread, ReadyQueue.setPriority, hut] using hinv.ready_iff u
  · intro u hstat
    by_cases hut : u = t
    · subst hut
      simp only [SchedState.setThread, update_self] at hstat
      simpa [SchedState.setThread, ReadyQueue.setPriority] using hsuspended hstat
    · simp only [SchedState.setThread, update_of_ne hut] at hstat
      simpa [SchedState.setThread, ReadyQueue.setPriority, hut] using hinv.suspended u hstat
  · intro u hstat
    by_cases hut : u = t
    · subst hut
      simp only [SchedState.setThread, update_self] at hstat ⊢
      exact hinitial hstat
    · simp only [SchedState.setThread, update_of_ne hut] at hstat ⊢
      exact hinv.initial u hstat

/-- The thread is put behind the others, and nothing else is changed. -/
theorem queued {q' : ReadyQueue} {block : ThreadBlock} (hinv : LifeInv n s q)
    (href : Refines n s' q') (hthreads : s'.threads = update s.threads t block)
    (hready : block.stat = .ready) (hmem : ∀ u, u ∈ q'.ready ↔ u = t ∨ u ∈ q.ready)
    (hpriority : ∀ u, u ≠ t → q'.priority u = q.priority u) : LifeInv n s' q' := by
  have hother : ∀ u, u ≠ t → s'.threads u = s.threads u := by
    intro u hut
    rw [hthreads, update_of_ne hut]
  have hself : (s'.threads t).stat = .ready := by
    rw [hthreads, update_self, hready]
  have hne : ∀ u, (s'.threads u).stat ≠ .ready → u ≠ t := by
    rintro u hstat rfl
    exact hstat hself
  refine ⟨href, ?_, ?_, ?_⟩
  · intro u
    rw [hmem]
    by_cases hut : u = t
    · simp [hut, hself]
    · simp [hut, hother u hut, hinv.ready_iff u]
  · intro u hstat
    have hut := hne u (by simp [hstat])
    rw [hother u hut] at hstat ⊢
    rw [hpriority u hut]
    exact hinv.suspended u hstat
  · intro u hstat
    have hut := hne u (by simp [hstat])
    rw [hother u hut] at hstat ⊢
    exact hinv.initial u hstat

section

variable (hn : n ≤ 256)
include hn

section

variable (hinv : LifeInv n s q)
include hinv

theorem leave (stat : Stat)
    (hready : (s.threads t).stat = .ready) (hstat : stat ≠ .ready) (hinit : stat ≠ .init) :
    ∃ s', rtScheduleRemoveThread n s t = some s' ∧ s'.threads = s.threads ∧
      LifeInv n (s'.setThread t { s.threads t with stat := stat }) (q.remove t) := by
  have hmem := (hinv.ready_iff t).mpr hready
  rcases hinv.refines.masks t hmem with ⟨hmasks, hlt⟩
  rcases hinv.refines.remove hn hmasks hlt with ⟨s', hremove, href, hthreads⟩
  have hother : ∀ u, u ≠ t →
      ((s'.setThread t { s.threads t with stat := stat }).threads u) = s.threads u := by
    intro u hut
    simp [SchedState.setThread, hut, hthreads]
  have hself : (s'.setThread t { s.threads t with stat := stat }).threads t =
      { s.threads t with stat := stat } := by
    simp [SchedState.setThread]
  refine ⟨s', hremove, hthreads, ?_, ?_, ?_, ?_⟩
  · apply href.of_threads
    · rfl
    · rfl
    · intro u
      by_cases hut : u = t
      · rw [hut, hself, hthreads]
      · rw [hother u hut, hthreads]
    · intro u hu
      have hut : u ≠ t := ((hinv.refines.nodup).mem_erase_iff.mp hu).1
      rw [hother u hut, hthreads]
  · intro u
    change u ∈ q.ready.erase t ↔ _
    rw [hinv.refines.nodup.mem_erase_iff]
    by_cases hut : u = t
    · rw [hut, hself]
      simp [hstat]
    · rw [hother u hut, hinv.ready_iff u]
      simp [hut]
  · intro u hsuspend
    by_cases hut : u = t
    · subst hut
      rw [hself]
      exact ⟨hmasks, hlt⟩
    · rw [hother u hut] at hsuspend ⊢
      exact hinv.suspended u hsuspend
  · intro u hstat'
    by_cases hut : u = t
    · rw [hut, hself] at hstat'
      contradiction
    · rw [hother u hut] at hstat' ⊢
      exact hinv.initial u hstat'

theorem enter (hsuspend : (s.threads t).stat = .suspend) :
    ∃ s', rtScheduleInsertThread n (s.unlink t) t = some s' ∧ LifeInv n s' (q.insert t) := by
  have hnot : t ∉ q.ready := by
    rw [hinv.ready_iff, hsuspend]
    decide
  rcases hinv.suspended t hsuspend with ⟨hmasks, hlt⟩
  rw [unlink_of_idle hinv.refines hnot]
  rcases hinv.refines.insert hn hnot hmasks hlt with ⟨s', hinsert, href, hthreads⟩
  refine ⟨s', hinsert, hinv.queued href hthreads rfl (fun u => ?_) fun _ _ => rfl⟩
  change u ∈ q.ready ++ [t] ↔ _
  simp [or_comm]

theorem rtThreadStartup (hinit : (s.threads t).stat = .init) :
    ∃ s' q', rtThreadStartup n s t = some s' ∧ LifeInv n s' q' := by
  have hlt := hinv.initial t hinit
  have hstarted := hinv.setThread t
    { s.threads t with
      stat := .suspend
      currentPriority := (s.threads t).initPriority
      masks := masksOf n (s.threads t).initPriority }
    (by simp [hinit]) (by simp) (fun _ => ⟨rfl, hlt⟩) (by simp)
  rcases hstarted.enter (t := t) hn (by simp [SchedState.setThread]) with ⟨s', hinsert, hinv'⟩
  refine ⟨s', _, ?_, hinv'⟩
  unfold Scheduler.rtThreadStartup rtThreadResume
  rw [if_neg (by simp [SchedState.setThread])]
  exact hinsert

theorem rtThreadSuspend (t : Thread) :
    ∃ s' q', rtThreadSuspend n s t = some s' ∧ LifeInv n s' q' := by
  unfold Scheduler.rtThreadSuspend
  by_cases hready : (s.threads t).stat = .ready
  · rcases hinv.leave hn .suspend hready (by decide) (by decide) with ⟨s', hremove, -, hinv'⟩
    refine ⟨_, _, ?_, hinv'⟩
    rw [if_neg (not_not.mpr hready), remove_setThread, hremove]
    · rfl
    · rfl
    · rfl
  · exact ⟨s, q, if_pos hready, hinv⟩

theorem rtThreadResume (t : Thread) :
    ∃ s' q', rtThreadResume n s t = some s' ∧ LifeInv n s' q' := by
  unfold Scheduler.rtThreadResume
  by_cases hsuspend : (s.threads t).stat = .suspend
  · rcases hinv.enter hn hsuspend with ⟨s', hinsert, hinv'⟩
    refine ⟨s', _, ?_, hinv'⟩
    rw [if_neg (not_not.mpr hsuspend)]
    exact hinsert
  · exact ⟨s, q, if_pos hsuspend, hinv⟩

theorem rtThreadControl (t : Thread) (hp : p < n) :
    ∃ s' q', rtThreadControl n s t p = some s' ∧ LifeInv n s' q' := by
  by_cases hready : (s.threads t).stat = .ready
  · have hmem := (hinv.ready_iff t).mpr hready
    rcases hinv.refines.control hn hready hmem hp with ⟨s', hcontrol, href, hthreads⟩
    refine ⟨s', _, hcontrol, hinv.queued href hthreads hready (fun u => ?_) fun u hut => ?_⟩
    · change u ∈ q.ready.erase t ++ [t] ↔ _
      rw [List.mem_append, hinv.refines.nodup.mem_erase_iff]
      by_cases hut : u = t
      · simp [hut]
      · simp [hut]
    · simp [ReadyQueue.insert, ReadyQueue.setPriority, ReadyQueue.remove, hut]
  · have hchanged := hinv.setThread t
      { s.threads t with currentPriority := p, masks := masksOf n p }
      hready hready (fun _ => ⟨rfl, hp⟩) (hinv.initial t)
    refine ⟨_, _, ?_, hchanged⟩
    unfold Scheduler.rtThreadControl
    rw [if_neg hready]

theorem closeThread (t : Thread) :
    (ClosedHarmlessly n s t → ∃ s' q', closeThread n s t = some s' ∧ LifeInv n s' q') ∧
      ((∃ s', Scheduler.closeThread n s t = some s' ∧ BitsMatch n s') →
        ClosedHarmlessly n s t) := by
  by_cases hready : (s.threads t).stat = .ready
  · rcases hinv.leave hn .close hready (by decide) (by decide) with ⟨s', hremove, hthreads, hinv'⟩
    refine ⟨fun _ => ⟨_, _, ?_, hinv'⟩, fun _ hnot => absurd hready hnot⟩
    unfold Scheduler.closeThread
    rw [hremove, map_some, hthreads]
  · have hidle : t ∉ q.ready := fun h => hready ((hinv.ready_iff t).mp h)
    have hremove : rtScheduleRemoveThread n s t =
        if s.queue (s.threads t).currentPriority = [] then
          if OutsideTable n (s.threads t).masks then none
          else some { s with bits := s.bits.clear n (s.threads t).masks }
        else some s := by
      unfold rtScheduleRemoveThread
      simp only [unlink_of_idle hinv.refines hidle]
    constructor
    · intro hharmless
      have hclosed := hinv.setThread t { s.threads t with stat := .close }
        hready (by simp) (by simp) (by simp)
      refine ⟨_, _, ?_, hclosed⟩
      unfold Scheduler.closeThread
      rw [hremove]
      split_ifs with hempty houtside
      · exact absurd houtside (hharmless hready hempty).1
      · rw [(hharmless hready hempty).clear]
        rfl
      · rfl
    · rintro ⟨s', hclose, hmatch⟩ - hempty
      unfold Scheduler.closeThread at hclose
      rw [hremove, if_pos hempty] at hclose
      split_ifs at hclose with houtside
      · cases hclose
      · rw [map_some, some.injEq] at hclose
        rw [← hclose] at hmatch
        exact harmless_of_bitsMatch hinv.refines houtside hmatch

theorem execute (henabled : action.Enabled n s) :
    (MasksNameNoOther n s action → ∃ s' q', execute n s action = some s' ∧ LifeInv n s' q') ∧
      ((∃ s', Life.execute n s action = some s' ∧ BitsMatch n s') →
        MasksNameNoOther n s action) := by
  cases action with
  | create t priority masks =>
    refine ⟨fun _ => ⟨_, _, rfl, hinv.setThread t _ ?_ ?_ ?_ ?_⟩, fun _ => trivial⟩
    · rcases henabled.1 with habsent | hclose
      · simp [habsent]
      · simp [hclose]
    · simp
    · simp
    · exact fun _ => henabled.2
  | startup t => exact ⟨fun _ => hinv.rtThreadStartup hn henabled, fun _ => trivial⟩
  | suspend t => exact ⟨fun _ => hinv.rtThreadSuspend hn t, fun _ => trivial⟩
  | resume t => exact ⟨fun _ => hinv.rtThreadResume hn t, fun _ => trivial⟩
  | control t p => exact ⟨fun _ => hinv.rtThreadControl hn t henabled.2, fun _ => trivial⟩
  | timeout t =>
    refine ⟨fun _ => ?_, fun _ => trivial⟩
    rcases hinv.enter hn henabled with ⟨s', hinsert, hinv'⟩
    exact ⟨s', _, hinsert, hinv'⟩
  | exit t | detach t | delete t => exact hinv.closeThread hn t

end

end

theorem of_init (hinit : (lifeSystem n).init s) :
    LifeInv n s ⟨[], fun t => (s.threads t).currentPriority⟩ := by
  rcases hinit with ⟨hqueue, hgroup, htable, hstat⟩
  refine ⟨⟨List.nodup_nil, ?_, fun _ => rfl, ?_, ?_⟩, ?_, ?_, ?_⟩
  · intro p
    rw [hqueue]
    rfl
  · exact nofun
  · apply (represents_empty hgroup htable).congr
    intro p
    simp [hqueue]
  · intro t
    simp [hstat]
  · intro t ht
    rw [hstat] at ht
    cases ht
  · intro t ht
    rw [hstat] at ht
    cases ht

end LifeInv

/-- In every run in which threads are closed only with masks that name no other bit,
the bitmap matches the ready queues; a step which closes a thread with other masks
ends this or leaves the table. -/
theorem bitsMatch_of_masksNameNoOther (hn : n ≤ 256)
    (hreach : (lifeSystem n).Reachable (MasksNameNoOther n) s) : BitsMatch n s ∧
      ∀ action : Action, action.Enabled n s →
        ((∃ s', execute n s action = some s' ∧ BitsMatch n s') ↔ MasksNameNoOther n s action) := by
  have hinv : ∃ q, LifeInv n s q := by
    apply hreach.invariant (P := fun s => ∃ q, LifeInv n s q)
    · exact fun s hinit => ⟨_, LifeInv.of_init hinit⟩
    · rintro s action s' ⟨q, hinv⟩ hguard ⟨henabled, hexecute⟩
      rcases (hinv.execute hn henabled).1 hguard with ⟨s'', q', hexecute', hinv'⟩
      rw [hexecute'] at hexecute
      exact ⟨q', some.inj hexecute ▸ hinv'⟩
  rcases hinv with ⟨q, hinv⟩
  refine ⟨bitsMatch_of_refines hn hinv.refines, fun action henabled => ⟨?_, ?_⟩⟩
  · exact (hinv.execute hn henabled).2
  · intro hguard
    rcases (hinv.execute hn henabled).1 hguard with ⟨s', q', hexecute, hinv'⟩
    exact ⟨s', hexecute, bitsMatch_of_refines hn hinv'.refines⟩

instance (n : ℕ) (s : SchedState) (action : Action) : Decidable (action.Enabled n s) :=
  match action with
  | .create _ _ _ => inferInstanceAs (Decidable (_ ∧ _))
  | .startup _ => inferInstanceAs (Decidable (_ = _))
  | .suspend _ => inferInstanceAs (Decidable (_ ≠ _))
  | .resume _ => inferInstanceAs (Decidable (_ ≠ _))
  | .control _ _ => inferInstanceAs (Decidable (_ ∧ _))
  | .timeout _ => inferInstanceAs (Decidable (_ = _))
  | .exit _ => inferInstanceAs (Decidable (_ ∧ _))
  | .detach _ => inferInstanceAs (Decidable (_ ≠ _))
  | .delete _ => inferInstanceAs (Decidable (_ ≠ _))

instance (n : ℕ) (b : ReadyBits) (m : Masks) : Decidable (Harmless n b m) :=
  inferInstanceAs (Decidable (_ ∧ _))

instance (n : ℕ) (s : SchedState) (t : Thread) : Decidable (ClosedHarmlessly n s t) :=
  inferInstanceAs (Decidable (_ → _))

instance (n : ℕ) (s : SchedState) (action : Action) : Decidable (MasksNameNoOther n s action) :=
  match action with
  | .create _ _ _ => isTrue trivial
  | .startup _ => isTrue trivial
  | .suspend _ => isTrue trivial
  | .resume _ => isTrue trivial
  | .control _ _ => isTrue trivial
  | .timeout _ => isTrue trivial
  | .exit t => inferInstanceAs (Decidable (ClosedHarmlessly n s t))
  | .detach t => inferInstanceAs (Decidable (ClosedHarmlessly n s t))
  | .delete t => inferInstanceAs (Decidable (ClosedHarmlessly n s t))

def sampleInit : SchedState where
  threads := fun _ => ⟨.absent, 0, 0, ⟨0, 0, 0⟩⟩
  queue := fun _ => []
  bits := ⟨0, fun _ => 0⟩

def sampleRun (n : ℕ) (guard : SchedState → Action → Prop) [∀ s action, Decidable (guard s action)]
    (actions : List Action) : Option SchedState :=
  actions.foldlM
    (fun s action => if guard s action ∧ action.Enabled n s then execute n s action else none)
    sampleInit

theorem reachable_sampleRun {guard : SchedState → Action → Prop}
    [∀ s action, Decidable (guard s action)] {actions : List Action}
    (hrun : sampleRun n guard actions = some s) : (lifeSystem n).Reachable guard s := by
  have hstart : (lifeSystem n).init sampleInit := ⟨fun _ => rfl, rfl, fun _ => rfl, fun _ => rfl⟩
  apply TransitionSystem.Reachable.foldlM _ (.start hstart) hrun
  intro s action s' hstep
  split_ifs at hstep with hmet
  exact ⟨hmet.1, hmet.2, hstep⟩

def staleMasks : Masks := ⟨31, 0xffffffff, 0xff⟩

theorem bitsMatch_in_sample : ∃ s, (lifeSystem 256).Reachable (MasksNameNoOther 256) s ∧
      s.queue 250 = [⟨1, by decide⟩] ∧ BitsMatch 256 s := by
  have hrun : (sampleRun 256 (MasksNameNoOther 256)
      [.create ⟨1, by decide⟩ 250 staleMasks, .startup ⟨1, by decide⟩,
        .create ⟨2, by decide⟩ 250 staleMasks, .delete ⟨2, by decide⟩]).map
        (fun s => s.queue 250) = some [⟨1, by decide⟩] := by decide
  rcases map_eq_some_iff.mp hrun with ⟨s, hs, hqueue⟩
  have hreach := reachable_sampleRun hs
  exact ⟨s, hreach, hqueue, (bitsMatch_of_masksNameNoOther (by decide) hreach).1⟩

/-- Detaching a thread whose `number_mask` was never set takes the bits of the others. -/
theorem detach_takes_ready_bit :
    ∃ s, (lifeSystem 32).Reachable (fun _ _ => True) s ∧
      s.queue 5 = [⟨1, by decide⟩] ∧ s.bits.group = 0 ∧ ¬BitsMatch 32 s := by
  have hrun : (sampleRun 32 (fun _ _ => True)
      [.create ⟨1, by decide⟩ 5 staleMasks, .startup ⟨1, by decide⟩,
        .create ⟨2, by decide⟩ 7 staleMasks, .detach ⟨2, by decide⟩]).map
        (fun s => (s.queue 5, s.bits.group)) = some ([⟨1, by decide⟩], 0) := by
    decide
  rcases map_eq_some_iff.mp hrun with ⟨s, hs, hvalues⟩
  rw [Prod.mk.injEq] at hvalues
  rcases hvalues with ⟨hqueue, hgroup⟩
  refine ⟨s, reachable_sampleRun hs, hqueue, hgroup, ?_⟩
  intro hmatch
  have hbit := ((hmatch 5 (by decide)).1 le_rfl).mpr (by simp [hqueue])
  rw [hgroup] at hbit
  cases hbit

end Life
end RtThread.Scheduler
