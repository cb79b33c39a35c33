import RtThread.IpcModel
import RtThread.GuardedRun

/-!
# The order of the waiting threads

The threads which wait for an object with the flag `RT_IPC_FLAG_PRIO` are put in
order when they are linked in.  The runs below have any number of objects of every
kind: a thread blocks, is resumed by whatever operation, times out, or is given
another priority by `rt_thread_control` or by a mutex.
-/

namespace RtThread.WaitOrder

open Function List Ipc

variable {κ : Type}

/-- The waiting threads with the order of their arrival. -/
structure OrderState (κ : Type) where
  core : Core κ
  arrival : Thread → ℕ
  clock : ℕ

inductive Action (κ : Type) where
  | block (t : Thread) (k : κ) (time : ℤ)
  | resume (t : Thread)
  | timeout (t : Thread)
  | changePriority (t : Thread) (priority : ℕ)

def Action.Enabled (s : OrderState κ) : Action κ → Prop
  | .block t _ _ => (s.core.threads t).stat = .ready
  | .resume _ => True
  | .timeout t => (s.core.threads t).timerActive = true
  | .changePriority _ _ => True

variable [DecidableEq κ]

def execute (flags : κ → IpcFlag) (s : OrderState κ) : Action κ → OrderState κ
  | .block t k time =>
    { core := startTimer (rtIpcListSuspend s.core k (flags k) t) t time
      arrival := update s.arrival t s.clock
      clock := s.clock + 1 }
  | .resume t => { s with core := rtThreadResume s.core t }
  | .timeout t => { s with core := rtThreadTimeout s.core t }
  | .changePriority t priority => { s with core := changePriority s.core t priority }

def orderSystem (flags : κ → IpcFlag) : TransitionSystem (OrderState κ) (Action κ) where
  init s := (∀ k, s.core.wait k = []) ∧
      ∀ t, (s.core.threads t).stat = .ready ∧ (s.core.threads t).timerActive = false
  step s action s' := action.Enabled s ∧ s' = execute flags s action

def Precedes (priority arrival : Thread → ℕ) (t u : Thread) : Prop :=
  priority t < priority u ∨ (priority t = priority u ∧ arrival t < arrival u)

instance decidablePrecedes (priority arrival : Thread → ℕ) (t u : Thread) :
    Decidable (Precedes priority arrival t u) :=
  inferInstanceAs (Decidable (_ ∨ _))

/-- The lists of all objects with the flag `RT_IPC_FLAG_PRIO` are in order, and the
first thread is a most urgent one. -/
def InOrder (flags : κ → IpcFlag) (s : OrderState κ) : Prop :=
  ∀ k, flags k = .prio → (s.core.wait k).Pairwise (Precedes s.core.priority s.arrival) ∧
      ∀ t rest, s.core.wait k = t :: rest →
        ∀ u ∈ s.core.wait k, s.core.priority t ≤ s.core.priority u

/-- A thread which waits for an object with the flag `RT_IPC_FLAG_PRIO` is only
given a priority which fits its place. -/
def FitsPlace (flags : κ → IpcFlag) (s : OrderState κ) : Action κ → Prop
  | .changePriority t p => ∀ k, flags k = .prio → t ∈ s.core.wait k →
      (∀ u ∈ (s.core.wait k).takeWhile (· ≠ t),
        s.core.priority u < p ∨ (s.core.priority u = p ∧ s.arrival u < s.arrival t)) ∧
      ∀ u ∈ ((s.core.wait k).dropWhile (· ≠ t)).tail,
        p < s.core.priority u ∨ (p = s.core.priority u ∧ s.arrival t < s.arrival u)
  | _ => True

section Lists

variable {priority arrival priority' arrival' : Thread → ℕ} {t : Thread} {l : List Thread}

theorem Precedes.le {u : Thread} (h : Precedes priority arrival t u) : priority t ≤ priority u := by
  rcases h with hlt | ⟨heq, -⟩
  · exact hlt.le
  · exact heq.le

theorem head_le_of_pairwise (hsorted : (t :: l).Pairwise (Precedes priority arrival)) :
    ∀ u ∈ t :: l, priority t ≤ priority u := by
  intro u hu
  rcases mem_cons.mp hu with rfl | hu
  · exact le_rfl
  · exact ((pairwise_cons.mp hsorted).1 u hu).le

theorem pairwise_insertPrio (hsorted : l.Pairwise (Precedes priority arrival))
    (hlast : ∀ u ∈ l, arrival u < arrival t) :
    (insertPrio priority t l).Pairwise (Precedes priority arrival) := by
  induction l with
  | nil => exact pairwise_singleton _ _
  | cons u l ih =>
    rw [pairwise_cons] at hsorted
    rw [insertPrio]
    split_ifs with hless
    · rw [pairwise_cons]
      refine ⟨?_, pairwise_cons.mpr hsorted⟩
      intro v hv
      rcases mem_cons.mp hv with rfl | hv
      · exact .inl hless
      · exact .inl (hless.trans_le (hsorted.1 v hv).le)
    · rw [pairwise_cons]
      refine ⟨?_, ih hsorted.2 (fun v hv => hlast v (by simp [hv]))⟩
      intro v hv
      rcases mem_cons.mp ((insertPrio_perm priority t l).mem_iff.mp hv) with rfl | hv
      · rcases lt_or_eq_of_le (not_lt.mp hless) with hlt | heq
        · exact .inl hlt
        · exact .inr ⟨heq, hlast u (by simp)⟩
      · exact hsorted.1 v hv

theorem pairwise_congr (hsorted : l.Pairwise (Precedes priority arrival))
    (hpriority : ∀ u ∈ l, priority' u = priority u) (harrival : ∀ u ∈ l, arrival' u = arrival u) :
    l.Pairwise (Precedes priority' arrival') := by
  apply hsorted.imp_of_mem
  intro u v hu hv huv
  unfold Precedes
  rw [hpriority u hu, hpriority v hv, harrival u hu, harrival v hv]
  exact huv

theorem pairwise_changed_iff {p : ℕ} (hnodup : l.Nodup) (hmem : t ∈ l)
    (hsorted : l.Pairwise (Precedes priority arrival)) :
    l.Pairwise (Precedes (fun u => if u = t then p else priority u) arrival) ↔
      (∀ u ∈ l.takeWhile (· ≠ t), priority u < p ∨ (priority u = p ∧ arrival u < arrival t)) ∧
      ∀ u ∈ (l.dropWhile (· ≠ t)).tail,
        p < priority u ∨ (p = priority u ∧ arrival t < arrival u) := by
  induction l with
  | nil => cases hmem
  | cons v l ih =>
    rw [nodup_cons] at hnodup
    rw [pairwise_cons] at hsorted
    by_cases hvt : v = t
    · subst hvt
      have hrest : l.Pairwise (Precedes (fun u => if u = v then p else priority u) arrival) := by
        apply pairwise_congr hsorted.2
        · intro u hu
          have huv : u ≠ v := fun h => hnodup.1 (h ▸ hu)
          simp [huv]
        · exact fun _ _ => rfl
      simp only [pairwise_cons, hrest, and_true, ne_eq, not_true_eq_false, decide_false,
        Bool.false_eq_true, not_false_eq_true, takeWhile_cons_of_neg,
        dropWhile_cons_of_neg, tail_cons, not_mem_nil, false_imp_iff,
        implies_true, true_and]
      apply forall₂_congr
      intro u hu
      have huv : u ≠ v := fun h => hnodup.1 (h ▸ hu)
      simp [Precedes, huv]
    · have hmem' : t ∈ l := (mem_cons.mp hmem).resolve_left (Ne.symm hvt)
      have hfirst : (∀ u ∈ l, Precedes (fun u => if u = t then p else priority u) arrival v u) ↔
          (priority v < p ∨ (priority v = p ∧ arrival v < arrival t)) := by
        constructor
        · intro hall
          have ht := hall t hmem'
          simpa [Precedes, hvt] using ht
        · intro hv u hu
          by_cases hut : u = t
          · simpa [Precedes, hvt, hut] using hv
          · have hold := hsorted.1 u hu
            simpa [Precedes, hvt, hut] using hold
      rw [pairwise_cons, hfirst, ih hnodup.2 hmem' hsorted.2,
        takeWhile_cons_of_pos (by simpa using hvt),
        dropWhile_cons_of_pos (by simpa using hvt), forall_mem_cons, and_assoc]

end Lists

variable {flags : κ → IpcFlag} {s s' : OrderState κ} {t : Thread} {action : Action κ}

structure OrderInv (s : OrderState κ) : Prop where
  linked : Linked s.core
  arrived : ∀ k, ∀ t ∈ s.core.wait k, s.arrival t < s.clock

omit [DecidableEq κ] in
theorem inOrder_iff : InOrder flags s ↔ ∀ k, flags k = .prio →
      (s.core.wait k).Pairwise (Precedes s.core.priority s.arrival) := by
  constructor
  · exact fun h k hk => (h k hk).1
  · intro h k hk
    refine ⟨h k hk, ?_⟩
    intro t rest hlist
    have hsorted := h k hk
    rw [hlist] at hsorted ⊢
    exact head_le_of_pairwise hsorted

omit [DecidableEq κ] in
theorem rtThreadResume_cases (core : Core κ) (t : Thread) :
    rtThreadResume core t = core ∨ ∃ code, rtThreadResume core t = woken core t code := by
  unfold rtThreadResume
  split_ifs
  · exact .inl rfl
  · exact .inr ⟨_, makeReady_eq core t⟩

omit [DecidableEq κ] in
theorem InOrder.woken {code : ErrorCode} (hinOrder : InOrder flags s) :
    InOrder flags { s with core := woken s.core t code } := by
  rw [inOrder_iff] at hinOrder ⊢
  intro k hk
  have hpriority : (Ipc.woken s.core t code).priority = s.core.priority :=
    funext fun u => woken_priority ..
  simp only [woken_wait, hpriority]
  exact (hinOrder k hk).sublist erase_sublist

theorem InOrder.block {k : κ} {time : ℤ} (hinv : OrderInv s) (hinOrder : InOrder flags s)
    (hready : (s.core.threads t).stat = .ready) :
    InOrder flags (execute flags s (.block t k time)) := by
  rw [inOrder_iff] at hinOrder ⊢
  intro l hl
  change ((asleep s.core k (flags k) t time).wait l).Pairwise (Precedes
    (asleep s.core k (flags k) t time).priority (update s.arrival t s.clock))
  have hpriority : (asleep s.core k (flags k) t time).priority = s.core.priority :=
    funext fun u => asleep_priority k (flags k) time hready
  have hold : (s.core.wait l).Pairwise
      (Precedes s.core.priority (update s.arrival t s.clock)) := by
    apply pairwise_congr (hinOrder l hl) (fun _ _ => rfl)
    intro u hu
    apply update_of_ne
    rintro rfl
    exact hinv.linked.not_mem_of_ready hready hu
  rw [hpriority]
  by_cases hlk : l = k
  · subst hlk
    rw [asleep_wait_self, hl]
    apply pairwise_insertPrio hold
    intro u hu
    have hut : u ≠ t := by
      rintro rfl
      exact hinv.linked.not_mem_of_ready hready hu
    rw [update_self, update_of_ne hut]
    exact hinv.arrived l u hu
  · rw [(asleep_wait s.core k (flags k) t time).2 l hlk]
    exact hold

theorem inOrder_changePriority_iff {p : ℕ} (hinv : OrderInv s) (hinOrder : InOrder flags s) :
    InOrder flags (execute flags s (.changePriority t p)) ↔
      FitsPlace flags s (.changePriority t p) := by
  rw [inOrder_iff] at hinOrder
  rw [inOrder_iff]
  apply forall₂_congr
  intro k hk
  have hpriority : (changePriority s.core t p).priority =
      fun u => if u = t then p else s.core.priority u :=
    funext fun u => changePriority_priority ..
  change (s.core.wait k).Pairwise (Precedes (changePriority s.core t p).priority s.arrival) ↔ _
  rw [hpriority]
  by_cases hmem : t ∈ s.core.wait k
  · rw [pairwise_changed_iff (hinv.linked.nodup k) hmem (hinOrder k hk)]
    simp [hmem]
  · apply iff_of_true
    · apply pairwise_congr (hinOrder k hk)
      · intro u hu
        have hut : u ≠ t := fun h => hmem (h ▸ hu)
        simp [hut]
      · exact fun _ _ => rfl
    · exact fun h => absurd h hmem

/-- A step keeps the order exactly when the new priority fits the place. -/
theorem inOrder_step_iff (hinv : OrderInv s) (hinOrder : InOrder flags s)
    (henabled : action.Enabled s) :
    InOrder flags (execute flags s action) ↔ FitsPlace flags s action := by
  cases action with
  | block t k time => exact iff_of_true (hinOrder.block hinv henabled) trivial
  | resume t =>
    apply iff_of_true _ trivial
    rcases rtThreadResume_cases s.core t with hsame | ⟨code, hwoken⟩
    · simp only [execute, hsame]
      exact hinOrder
    · simp only [execute, hwoken]
      exact hinOrder.woken
  | timeout t =>
    apply iff_of_true _ trivial
    simp only [execute, rtThreadTimeout_eq]
    exact hinOrder.woken
  | changePriority t p => exact inOrder_changePriority_iff hinv hinOrder

omit [DecidableEq κ] in
theorem OrderInv.woken {code : ErrorCode} (hinv : OrderInv s) :
    OrderInv { s with core := woken s.core t code } :=
  ⟨hinv.linked.woken t code, fun k u hu => hinv.arrived k u (mem_of_mem_erase hu)⟩

/-- Nobody waits who has not arrived. -/
theorem OrderInv.execute (hinv : OrderInv s) (henabled : action.Enabled s) :
    OrderInv (execute flags s action) := by
  cases action with
  | block t k time =>
    refine ⟨hinv.linked.asleep henabled, ?_⟩
    intro l u hu
    change u ∈ (asleep s.core k (flags k) t time).wait l at hu
    change update s.arrival t s.clock u < s.clock + 1
    by_cases hut : u = t
    · rw [hut, update_self]
      omega
    · rw [update_of_ne hut]
      have hold : u ∈ s.core.wait l := by
        rcases asleep_wait s.core k (flags k) t time with ⟨hperm, hother⟩
        by_cases hlk : l = k
        · rw [hlk, hperm.mem_iff] at hu
          rw [hlk]
          exact (mem_cons.mp hu).resolve_left hut
        · rwa [hother l hlk] at hu
      have hlt := hinv.arrived l u hold
      omega
  | resume t =>
    rcases rtThreadResume_cases s.core t with hsame | ⟨code, hwoken⟩
    · simp only [execute, hsame]
      exact hinv
    · simp only [execute, hwoken]
      exact hinv.woken
  | timeout t =>
    simp only [execute, rtThreadTimeout_eq]
    exact hinv.woken
  | changePriority t p => exact ⟨hinv.linked.changePriority t p, hinv.arrived⟩

/-- In every run in which no waiting thread is given a priority that does not fit
its place, the lists stay in order; a step which does so breaks the order. -/
theorem inOrder_of_fitsPlace (flags : κ → IpcFlag)
    (hreach : (orderSystem flags).Reachable (FitsPlace flags) s) : InOrder flags s ∧
      ∀ action s', (orderSystem flags).step s action s' →
        (InOrder flags s' ↔ FitsPlace flags s action) := by
  have hboth : OrderInv s ∧ InOrder flags s := by
    apply hreach.invariant (P := fun s => OrderInv s ∧ InOrder flags s)
    · rintro s ⟨hwait, hthreads⟩
      refine ⟨⟨.of_empty hwait (fun t => (hthreads t).2), ?_⟩, ?_⟩
      · intro k t ht
        rw [hwait] at ht
        cases ht
      · rw [inOrder_iff]
        intro k _
        rw [hwait]
        exact Pairwise.nil
    · rintro s action s' ⟨hinv, hinOrder⟩ hguard ⟨henabled, rfl⟩
      exact ⟨hinv.execute henabled, (inOrder_step_iff hinv hinOrder henabled).mpr hguard⟩
  rcases hboth with ⟨hinv, hinOrder⟩
  refine ⟨hinOrder, ?_⟩
  rintro action s' ⟨henabled, rfl⟩
  exact inOrder_step_iff hinv hinOrder henabled

instance (s : OrderState κ) (action : Action κ) : Decidable (action.Enabled s) :=
  match action with
  | .block _ _ _ => inferInstanceAs (Decidable (_ = _))
  | .resume _ => isTrue trivial
  | .timeout _ => inferInstanceAs (Decidable (_ = _))
  | .changePriority _ _ => isTrue trivial

instance [Fintype κ] (flags : κ → IpcFlag) (s : OrderState κ) (action : Action κ) :
    Decidable (FitsPlace flags s action) :=
  match action with
  | .block _ _ _ => isTrue trivial
  | .resume _ => isTrue trivial
  | .timeout _ => isTrue trivial
  | .changePriority t p => inferInstanceAs (Decidable (∀ k, flags k = .prio → t ∈ s.core.wait k →
        (∀ u ∈ (s.core.wait k).takeWhile (· ≠ t),
          s.core.priority u < p ∨ (s.core.priority u = p ∧ s.arrival u < s.arrival t)) ∧
        ∀ u ∈ ((s.core.wait k).dropWhile (· ≠ t)).tail,
          p < s.core.priority u ∨ (p = s.core.priority u ∧ s.arrival t < s.arrival u)))

def sampleInit : OrderState κ where
  core := ⟨fun t => ⟨.ready, .eok, 10 * t.val.toNat, false⟩, fun _ => []⟩
  arrival := fun _ => 0
  clock := 0

def sampleRun (guard : OrderState Unit → Action Unit → Prop)
    [∀ s action, Decidable (guard s action)]
    (actions : List (Action Unit)) : Option (OrderState Unit) :=
  actions.foldlM
    (fun s action =>
      if guard s action ∧ action.Enabled s then some (execute (fun _ => .prio) s action)
      else none)
    sampleInit

theorem reachable_sampleRun {guard : OrderState Unit → Action Unit → Prop}
    [∀ s action, Decidable (guard s action)] {actions : List (Action Unit)} {s : OrderState Unit}
    (hrun : sampleRun guard actions = some s) :
    (orderSystem (fun _ => .prio)).Reachable guard s := by
  have hstart : (orderSystem (fun _ : Unit => IpcFlag.prio)).init sampleInit :=
    ⟨fun _ => rfl, fun _ => ⟨rfl, rfl⟩⟩
  apply TransitionSystem.Reachable.foldlM _ (.start hstart) hrun
  intro s action s' hstep
  split_ifs at hstep with hmet
  exact ⟨hmet.1, hmet.2, (Option.some.inj hstep).symm⟩

theorem inOrder_in_sample :
    ∃ s, (orderSystem (fun _ : Unit => .prio)).Reachable (FitsPlace (fun _ => .prio)) s ∧
      s.core.wait () = [⟨1, by decide⟩, ⟨2, by decide⟩, ⟨3, by decide⟩] ∧
      InOrder (fun _ => .prio) s := by
  have hrun : (sampleRun (FitsPlace (fun _ => .prio))
      [.block ⟨3, by decide⟩ () (-1), .block ⟨1, by decide⟩ () 5,
        .block ⟨2, by decide⟩ () 5, .changePriority ⟨3, by decide⟩ 25]).map
        (fun s => s.core.wait ()) =
        some [⟨1, by decide⟩, ⟨2, by decide⟩, ⟨3, by decide⟩] := by decide
  rcases Option.map_eq_some_iff.mp hrun with ⟨s, hs, hwait⟩
  have hreach := reachable_sampleRun hs
  exact ⟨s, hreach, hwait, (inOrder_of_fitsPlace _ hreach).1⟩

/-- A waiting thread which becomes more urgent keeps its place. -/
theorem changed_priority_not_inOrder :
    ∃ s, (orderSystem (fun _ : Unit => .prio)).Reachable (fun _ _ => True) s ∧
      s.core.wait () = [⟨1, by decide⟩, ⟨2, by decide⟩] ∧ ¬InOrder (fun _ => .prio) s := by
  have hrun : (sampleRun (fun _ _ => True)
      [.block ⟨1, by decide⟩ () (-1), .block ⟨2, by decide⟩ () (-1),
        .changePriority ⟨2, by decide⟩ 5]).map
        (fun s => (s.core.wait (), s.core.priority ⟨1, by decide⟩,
          s.core.priority ⟨2, by decide⟩)) =
        some ([⟨1, by decide⟩, ⟨2, by decide⟩], 10, 5) := by decide
  rcases Option.map_eq_some_iff.mp hrun with ⟨s, hs, hvalues⟩
  simp only [Prod.mk.injEq] at hvalues
  rcases hvalues with ⟨hwait, hone, htwo⟩
  refine ⟨s, reachable_sampleRun hs, hwait, ?_⟩
  intro hinOrder
  have hle := (hinOrder () rfl).2 _ _ hwait ⟨2, by decide⟩ (by simp [hwait])
  rw [hone, htwo] at hle
  exact absurd hle (by decide)

end RtThread.WaitOrder
