import RtThread.TimerRows

/-!
# The skip list refines a sorted list

Two kernels run side by side on the same calls: one with any number of rows, one
with a single row.  Their last rows are equal as long as the pending timeouts lie
within half the range of the tick.
-/

namespace RtThread.Timer.Refinement

open Function Word

variable {τ : Type} [DecidableEq τ] {cfg : SkipConfig} {t u : τ} {k : TimerList}

/-- The steps of a run; `remove` is `_rt_timer_remove`, as `rt_timer_detach`,
`rt_timer_delete` and the checks call it, and `tick` increments `rt_tick`. -/
inductive Action (τ : Type) where
  | start (t : τ)
  | stop (t : τ)
  | remove (t : τ)
  | control (t : τ) (command : TimerControl)
  | tick

def execute (cfg : SkipConfig) (s : TimerState τ) : Action τ → TimerState τ
  | .start t => (rtTimerStart cfg s t).getD s
  | .stop t => (rtTimerStop s t).getD s
  | .remove t => rtTimerRemove s t
  | .control t command => rtTimerControl s t command
  | .tick => { s with tick := add32 s.tick 1 }

def oneRow (cfg : SkipConfig) : SkipConfig := { cfg with level := 1, level_pos := Nat.one_pos }

structure Pair (τ : Type) where
  skip : TimerState τ
  plain : TimerState τ
  order : τ → ℕ
  starts : ℕ

def Pair.execute (cfg : SkipConfig) (p : Pair τ) (action : Action τ) : Pair τ where
  skip := Refinement.execute cfg p.skip action
  plain := Refinement.execute (oneRow cfg) p.plain action
  order := match action with
    | .start t =>
      if (p.skip.timers t).activated then p.order else update p.order t p.starts
    | _ => p.order
  starts := p.starts + 1

/-- Both kernels start with the same timers and empty lists; `random_nr` may have any
value in either of them. -/
def pairSystem (cfg : SkipConfig) : TransitionSystem (Pair τ) (Action τ) where
  init p := p.plain.tick = p.skip.tick ∧ p.plain.timers = p.skip.timers ∧
      (∀ t, (p.skip.timers t).activated = false) ∧
      (∀ k r, p.skip.lists k r = []) ∧ ∀ k r, p.plain.lists k r = []
  step p action p' := p' = p.execute cfg action

/-- A timer is started only while all pending timers of its list and the new one time
out within one interval of less than `RT_TICK_MAX / 2` ticks. -/
def WithinHalfRange (cfg : SkipConfig) (p : Pair τ) : Action τ → Prop
  | .start t => (p.skip.timers t).activated = false →
      ∃ base, sub32 (startedTimer p.skip t).timeoutTick base < rtTickMax / 2 ∧
        ∀ u ∈ p.skip.bottom cfg (p.skip.timers t).list,
          sub32 (p.skip.timers u).timeoutTick base < rtTickMax / 2
  | _ => True

/-- One timer comes before another in the list: it times out earlier, or at the same
tick and was started earlier. -/
def Precedes (p : Pair τ) (t u : τ) : Prop :=
  ((p.skip.timers t).timeoutTick = (p.skip.timers u).timeoutTick ∧ p.order t < p.order u) ∨
    (0 < sub32 (p.skip.timers u).timeoutTick (p.skip.timers t).timeoutTick ∧
      sub32 (p.skip.timers u).timeoutTick (p.skip.timers t).timeoutTick < rtTickMax / 2)

/-- The last row is the one of a kernel with a single row and sorted, every row is a
sublist of the next one, and every timer is in all rows behind its first one. -/
structure RefinesSorted (cfg : SkipConfig) (p : Pair τ) : Prop where
  bottom : ∀ k, p.skip.bottom cfg k = p.plain.bottom (oneRow cfg) k
  sorted : ∀ k, (p.skip.bottom cfg k).Pairwise (Precedes p)
  sublist : ∀ k r, r + 1 < cfg.level → (p.skip.lists k r).Sublist (p.skip.lists k (r + 1))
  contiguous : ∀ k t r r', r ≤ r' → r' < cfg.level → t ∈ p.skip.lists k r → t ∈ p.skip.lists k r'

theorem sub32_window {x y base : ℕ} (hx : x < 4294967296) (hy : y < 4294967296)
    (hxbase : sub32 x base < rtTickMax / 2) (hybase : sub32 y base < rtTickMax / 2) :
    (sub32 x y = 0 ↔ x = y) ∧
      (0 < sub32 x y ∧ sub32 x y < rtTickMax / 2 ↔ sub32 y base < sub32 x base) := by
  unfold sub32 rtTickMax at *
  lia

theorem sub32_window_not {x y base : ℕ} (hx : x < 4294967296) (hy : y < 4294967296)
    (hnot : ¬sub32 y base < sub32 x base) : x = y ∨ sub32 x base < sub32 y base := by
  unfold sub32 at *
  omega

/-- The skip lists and the sorted list hold the same timers in the same order. -/
structure PairInv (cfg : SkipConfig) (p : Pair τ) : Prop where
  tick : p.plain.tick = p.skip.tick
  timers : p.plain.timers = p.skip.timers
  rows : RowsInv cfg p.skip
  plainRows : RowsInv (oneRow cfg) p.plain
  bottom : ∀ k, p.skip.bottom cfg k = p.plain.bottom (oneRow cfg) k
  sorted : ∀ k, (p.skip.bottom cfg k).Pairwise (Precedes p)
  order : ∀ k, ∀ t ∈ p.skip.bottom cfg k, p.order t < p.starts

structure Window (timers : τ → RtTimer) (base : ℕ) (pending : List τ) : Prop where
  word : ∀ u ∈ pending, (timers u).timeoutTick < 4294967296
  near : ∀ u ∈ pending, sub32 (timers u).timeoutTick base < rtTickMax / 2

section Window

variable {timers : τ → RtTimer} {base : ℕ} {pending : List τ}

omit [DecidableEq τ] in
/-- Within half the range the walk compares the deadlines. -/
theorem Window.stopsAt_iff
    (hwindow : Window timers base pending) (ht : t ∈ pending) (hu : u ∈ pending) :
    stopsAt timers t u = true ↔
      sub32 (timers t).timeoutTick base < sub32 (timers u).timeoutTick base := by
  have hcompare := (sub32_window (hwindow.word u hu) (hwindow.word t ht) (hwindow.near u hu)
    (hwindow.near t ht)).2
  rw [← hcompare]
  simp [stopsAt, Nat.pos_iff_ne_zero]

end Window

variable {p : Pair τ} {a b : TimerState τ}

omit [DecidableEq τ] in
theorem Precedes.le_offset {base : ℕ} {pending : List τ} (hprecedes : Precedes p t u)
    (hwindow : Window p.skip.timers base pending) (ht : t ∈ pending) (hu : u ∈ pending) :
    sub32 (p.skip.timers t).timeoutTick base ≤ sub32 (p.skip.timers u).timeoutTick base := by
  rcases hprecedes with ⟨heq, -⟩ | hless
  · rw [heq]
  · have hcompare := (sub32_window (hwindow.word u hu) (hwindow.word t ht) (hwindow.near u hu)
      (hwindow.near t ht)).2
    exact (hcompare.mp hless).le

namespace PairInv

theorem monotone_of_window {base : ℕ} (hinv : PairInv cfg p)
    (hstart : rtTimerStart cfg p.skip t = some a)
    (hwindow : Window a.timers base (a.bottom cfg (p.skip.timers t).list)) :
    (p.skip.bottom cfg (p.skip.timers t).list).Pairwise fun x y =>
      stopsAt a.timers t x = true → stopsAt a.timers t y = true := by
  rcases rtTimerStart_eq_some hstart with ⟨hinactive, -, htimers, -⟩
  have hmem := fun u => hinv.rows.mem_rtTimerStart (u := u) (k := (p.skip.timers t).list) hstart
  have ht := (hmem t).mpr (.inl ⟨rfl, rfl⟩)
  have hsame : ∀ u ∈ p.skip.bottom cfg (p.skip.timers t).list, a.timers u = p.skip.timers u := by
    intro u hu
    have hne : u ≠ t := hinv.rows.ne_of_inactive hinactive hu
    rw [htimers, update_of_ne hne]
  apply (hinv.sorted _).imp_of_mem
  intro x y hx hy hprecedes
  have hxin := (hmem x).mpr (.inr hx)
  have hyin := (hmem y).mpr (.inr hy)
  rw [hwindow.stopsAt_iff ht hxin, hwindow.stopsAt_iff ht hyin]
  have hold : Window p.skip.timers base (p.skip.bottom cfg (p.skip.timers t).list) := by
    constructor
    · intro u hu
      exact hinv.rows.word _ u hu
    · intro u hu
      rw [← hsame u hu]
      exact hwindow.near u ((hmem u).mpr (.inr hu))
  have hle := hprecedes.le_offset hold hx hy
  rw [hsame x hx, hsame y hy]
  omega

theorem started {base : ℕ} (hinv : PairInv cfg p) (hstart : rtTimerStart cfg p.skip t = some a)
    (hplain : rtTimerStart (oneRow cfg) p.plain t = some b)
    (hwindow : Window a.timers base (a.bottom cfg (p.skip.timers t).list)) :
    PairInv cfg ⟨a, b, update p.order t p.starts, p.starts + 1⟩ := by
  rcases rtTimerStart_eq_some hstart with ⟨hinactive, htick, htimers, hother, -⟩
  rcases rtTimerStart_eq_some hplain with ⟨-, hptick, hptimers, hpother, -⟩
  have hnew : startedTimer p.plain t = startedTimer p.skip t := by
    unfold startedTimer
    rw [hinv.timers, hinv.tick]
  have heq : b.timers = a.timers := by rw [hptimers, htimers, hinv.timers, hnew]
  have hlist : (p.plain.timers t).list = (p.skip.timers t).list := by rw [hinv.timers]
  have hmono := hinv.monotone_of_window hstart hwindow
  have hbottom := hinv.rows.bottom_rtTimerStart hstart hmono
  have hpbottom : b.bottom (oneRow cfg) (p.skip.timers t).list =
      SkipList.insertBefore (stopsAt a.timers t) t
        (p.plain.bottom (oneRow cfg) (p.skip.timers t).list) := by
    rw [← hlist, ← heq]
    apply hinv.plainRows.bottom_rtTimerStart hplain
    rw [hlist, heq, ← hinv.bottom]
    exact hmono
  have hne : ∀ k, ∀ u ∈ p.skip.bottom cfg k, u ≠ t :=
    fun k u hu => hinv.rows.ne_of_inactive hinactive hu
  -- timers which were pending keep their places
  have hkept : ∀ k, ∀ x ∈ p.skip.bottom cfg k, ∀ y ∈ p.skip.bottom cfg k, Precedes p x y →
      Precedes ⟨a, b, update p.order t p.starts, p.starts + 1⟩ x y := by
    intro k x hx y hy hprecedes
    have hxt := hne k x hx
    have hyt := hne k y hy
    simpa [Precedes, htimers, hxt, hyt] using hprecedes
  have hunchanged : ∀ k, k ≠ (p.skip.timers t).list → a.bottom cfg k = p.skip.bottom cfg k := by
    intro k hk
    unfold TimerState.bottom
    rw [hother k hk]
  constructor
  · rw [hptick, htick, hinv.tick]
  · exact heq
  · exact hinv.rows.rtTimerStart hstart
  · exact hinv.plainRows.rtTimerStart hplain
  · intro k
    by_cases hk : k = (p.skip.timers t).list
    · rw [hk, hbottom, hpbottom, hinv.bottom]
    · rw [hunchanged k hk, hinv.bottom]
      unfold TimerState.bottom
      rw [hpother k (hlist ▸ hk)]
  · intro k
    by_cases hk : k = (p.skip.timers t).list
    · subst hk
      have hmem := fun u =>
        hinv.rows.mem_rtTimerStart (u := u) (k := (p.skip.timers t).list) hstart
      have ht := (hmem t).mpr (.inl ⟨rfl, rfl⟩)
      rw [hbottom]
      apply SkipList.pairwise_insertBefore _ hmono
      · intro x hx hstop
        have hxin := (hmem x).mpr (.inr hx)
        have hnot : ¬sub32 (a.timers t).timeoutTick base < sub32 (a.timers x).timeoutTick base := by
          rw [← hwindow.stopsAt_iff ht hxin, hstop]
          exact Bool.false_ne_true
        rcases sub32_window_not (hwindow.word x hxin) (hwindow.word t ht) hnot with hsame | hless
        · left
          have horder := hinv.order _ x hx
          exact ⟨hsame, by simpa [hne _ x hx] using horder⟩
        · right
          exact (sub32_window (hwindow.word t ht) (hwindow.word x hxin) (hwindow.near t ht)
            (hwindow.near x hxin)).2.mpr hless
      · intro y hy hstop
        have hyin := (hmem y).mpr (.inr hy)
        right
        exact (sub32_window (hwindow.word y hyin) (hwindow.word t ht) (hwindow.near y hyin)
          (hwindow.near t ht)).2.mpr ((hwindow.stopsAt_iff ht hyin).mp hstop)
      · apply (hinv.sorted _).imp_of_mem
        intro x y hx hy
        exact hkept _ x hx y hy
    · rw [hunchanged k hk]
      apply (hinv.sorted k).imp_of_mem
      intro x y hx hy
      exact hkept k x hx y hy
  · intro k u hu
    rcases (hinv.rows.mem_rtTimerStart hstart).mp hu with ⟨rfl, -⟩ | hu
    · simp
    · have horder := hinv.order k u hu
      simp only [update_of_ne (hne k u hu)]
      omega

omit [DecidableEq τ] in
theorem of_sublist (p' : Pair τ) (hinv : PairInv cfg p) (htick : p'.plain.tick = p'.skip.tick)
    (htimers : p'.plain.timers = p'.skip.timers) (hrows : RowsInv cfg p'.skip)
    (hplain : RowsInv (oneRow cfg) p'.plain)
    (hbottom : ∀ k, p'.skip.bottom cfg k = p'.plain.bottom (oneRow cfg) k)
    (hsub : ∀ k, (p'.skip.bottom cfg k).Sublist (p.skip.bottom cfg k))
    (htimeout : ∀ u, (p'.skip.timers u).timeoutTick = (p.skip.timers u).timeoutTick)
    (horder : p'.order = p.order) (hstarts : p'.starts = p.starts + 1) : PairInv cfg p' := by
  refine ⟨htick, htimers, hrows, hplain, hbottom, ?_, ?_⟩
  · intro k
    apply ((hinv.sorted k).sublist (hsub k)).imp
    intro x y hprecedes
    unfold Precedes
    rw [htimeout, htimeout, horder]
    exact hprecedes
  · intro k u hu
    have hold := hinv.order k u ((hsub k).subset hu)
    rw [horder, hstarts]
    omega

theorem removed (hinv : PairInv cfg p) (t : τ) (k : TimerList) :
    (rtTimerRemove p.skip t).bottom cfg k = (rtTimerRemove p.plain t).bottom (oneRow cfg) k :=
  congrArg (fun row => row.erase t) (hinv.bottom k)

theorem execute {action : Action τ} (hinv : PairInv cfg p) (hguard : WithinHalfRange cfg p action) :
    PairInv cfg (p.execute cfg action) := by
  cases action with
  | start t =>
    cases hactive : (p.skip.timers t).activated with
    | false =>
      have hpinactive : (p.plain.timers t).activated = false := by
        rw [hinv.timers, hactive]
      rcases rtTimerStart_of_inactive cfg hactive with ⟨a, ha⟩
      rcases rtTimerStart_of_inactive (oneRow cfg) hpinactive with ⟨b, hb⟩
      have heq : p.execute cfg (.start t) =
          ⟨a, b, update p.order t p.starts, p.starts + 1⟩ := by
        simp [Pair.execute, Refinement.execute, ha, hb, hactive]
      rw [heq]
      rcases hguard hactive with ⟨base, hnew, hold⟩
      apply hinv.started ha hb
      have htimers := (rtTimerStart_eq_some ha).2.2.1
      constructor
      · intro u hu
        exact (hinv.rows.rtTimerStart ha).word _ u hu
      · intro u hu
        rw [htimers]
        rcases (hinv.rows.mem_rtTimerStart ha).mp hu with ⟨rfl, -⟩ | hu
        · rw [update_self]
          exact hnew
        · have hne : u ≠ t := hinv.rows.ne_of_inactive hactive hu
          rw [update_of_ne hne]
          exact hold u hu
    | true =>
      have hpactive : (p.plain.timers t).activated = true := by
        rw [hinv.timers, hactive]
      have heq : p.execute cfg (.start t) = { p with starts := p.starts + 1 } := by
        simp [Pair.execute, Refinement.execute, rtTimerStart_of_active hactive,
          rtTimerStart_of_active hpactive, hactive]
      rw [heq]
      exact of_sublist _ hinv hinv.tick hinv.timers hinv.rows hinv.plainRows hinv.bottom
        (fun _ => List.Sublist.refl _) (fun _ => rfl) rfl rfl
  | stop t =>
    cases hactive : (p.skip.timers t).activated with
    | false =>
      have hpinactive : (p.plain.timers t).activated = false := by
        rw [hinv.timers, hactive]
      have heq : p.execute cfg (.stop t) = { p with starts := p.starts + 1 } := by
        simp [Pair.execute, Refinement.execute, rtTimerStop, hactive, hpinactive]
      rw [heq]
      exact of_sublist _ hinv hinv.tick hinv.timers hinv.rows hinv.plainRows hinv.bottom
        (fun _ => List.Sublist.refl _) (fun _ => rfl) rfl rfl
    | true =>
      have hpactive : (p.plain.timers t).activated = true := by
        rw [hinv.timers, hactive]
      have hskip : rtTimerStop p.skip t =
          some (setActivated (rtTimerRemove p.skip t) t false) := if_pos hactive
      have hplain : rtTimerStop p.plain t =
          some (setActivated (rtTimerRemove p.plain t) t false) := if_pos hpactive
      have heq : p.execute cfg (.stop t) = ⟨setActivated (rtTimerRemove p.skip t) t false,
            setActivated (rtTimerRemove p.plain t) t false, p.order, p.starts + 1⟩ := by
        simp [Pair.execute, Refinement.execute, hskip, hplain]
      rw [heq]
      apply of_sublist ⟨setActivated (rtTimerRemove p.skip t) t false,
        setActivated (rtTimerRemove p.plain t) t false, p.order, p.starts + 1⟩ hinv hinv.tick _
        (hinv.rows.rtTimerStop hskip) (hinv.plainRows.rtTimerStop hplain) (hinv.removed t)
        (fun _ => List.erase_sublist) _ rfl rfl
      · simp [hinv.timers]
      · intro u
        by_cases hu : u = t
        · simp [hu]
        · simp [hu]
  | remove t =>
    exact of_sublist _ hinv hinv.tick hinv.timers (hinv.rows.rtTimerRemove t)
      (hinv.plainRows.rtTimerRemove t) (hinv.removed t) (fun _ => List.erase_sublist)
      (fun _ => rfl) rfl rfl
  | control t command =>
    have hlists : ∀ s : TimerState τ, (rtTimerControl s t command).lists = s.lists := by
      intro s
      cases command <;> rfl
    have hbottom : ∀ (c : SkipConfig) (s : TimerState τ) k,
        (rtTimerControl s t command).bottom c k = s.bottom c k := by
      intro c s k
      unfold TimerState.bottom
      rw [hlists]
    apply of_sublist (p.execute cfg (.control t command)) hinv _ _
      (hinv.rows.rtTimerControl t command) (hinv.plainRows.rtTimerControl t command)
    · intro k
      exact (hbottom _ _ k).trans ((hinv.bottom k).trans (hbottom _ _ k).symm)
    · intro k
      exact (hbottom cfg p.skip k) ▸ List.Sublist.refl _
    · intro u
      by_cases hu : u = t
      · subst hu
        cases command <;> simp [Pair.execute, Refinement.execute, rtTimerControl]
      · cases command <;> simp [Pair.execute, Refinement.execute, rtTimerControl, hu]
    · rfl
    · rfl
    · cases command <;> exact hinv.tick
    · cases command <;> simp [Pair.execute, Refinement.execute, rtTimerControl, hinv.timers]
  | tick =>
    apply of_sublist (p.execute cfg .tick) hinv _ hinv.timers
      (hinv.rows.of_timers rfl (fun _ _ _ => ⟨rfl, rfl, rfl⟩))
      (hinv.plainRows.of_timers rfl (fun _ _ _ => ⟨rfl, rfl, rfl⟩)) hinv.bottom
      (fun _ => List.Sublist.refl _) (fun _ => rfl) rfl rfl
    exact congrArg (fun now => add32 now 1) hinv.tick

theorem of_init (hinit : (pairSystem cfg).init p) : PairInv cfg p := by
  rcases hinit with ⟨htick, htimers, hinactive, hskip, hplain⟩
  have hbottom : ∀ k, p.skip.bottom cfg k = [] := fun k => hskip k _
  refine ⟨htick, htimers, RowsInv.of_empty hskip, RowsInv.of_empty hplain, ?_, ?_, ?_⟩
  · intro k
    rw [hbottom]
    exact (hplain k _).symm
  · intro k
    rw [hbottom]
    exact .nil
  · intro k u hu
    rw [hbottom] at hu
    cases hu

theorem of_reachable (hreach : (pairSystem cfg).Reachable (WithinHalfRange cfg) p) :
    PairInv cfg p := by
  apply hreach.invariant
  · intro p hinit
    exact of_init hinit
  · intro p action p' hinv hguard hstep
    rw [show p' = p.execute cfg action from hstep]
    exact hinv.execute hguard

end PairInv

/-- With any number of rows, either mask and any value of `random_nr`, in every run in
which timers are started within half the range of the tick, the last row is the sorted
list of a kernel with one row. -/
theorem refinesSorted_of_reachable (cfg : SkipConfig) (p : Pair τ)
    (hreach : (pairSystem cfg).Reachable (WithinHalfRange cfg) p) :
    RefinesSorted cfg p := by
  have hinv := PairInv.of_reachable hreach
  constructor
  · exact hinv.bottom
  · exact hinv.sorted
  · intro k r hr
    exact (hinv.rows.skip k).sublist r hr
  · intro k t r r' hle hr' ht
    exact ((hinv.rows.skip k).sublist_of_le hle hr').subset ht

def sampleConfig : SkipConfig := ⟨3, 1, by decide, by decide⟩

def sampleDelay : Fin 4 → ℕ
  | 0 => 9
  | 1 => 20
  | 2 => 5
  | 3 => 8

def sampleInit : Pair (Fin 4) where
  skip := ⟨4294967290, 7, fun t => ⟨0, sampleDelay t, false, false, false⟩, fun _ _ => []⟩
  plain := ⟨4294967290, 0, fun t => ⟨0, sampleDelay t, false, false, false⟩, fun _ _ => []⟩
  order := fun _ => 0
  starts := 0

def testWithin (p : Pair (Fin 4)) : Action (Fin 4) → Bool
  | .start t =>
    decide (sub32 (startedTimer p.skip t).timeoutTick p.skip.tick < rtTickMax / 2) &&
      (p.skip.bottom sampleConfig (p.skip.timers t).list).all fun u =>
        decide (sub32 (p.skip.timers u).timeoutTick p.skip.tick < rtTickMax / 2)
  | _ => true

def sampleRun (actions : List (Action (Fin 4))) : Option (Pair (Fin 4)) :=
  actions.foldlM
    (fun p action => if testWithin p action then some (p.execute sampleConfig action) else none)
    sampleInit

theorem reachable_sampleRun
    {actions : List (Action (Fin 4))} {p : Pair (Fin 4)} (hrun : sampleRun actions = some p) :
    (pairSystem sampleConfig).Reachable (WithinHalfRange sampleConfig) p := by
  have hstart : (pairSystem sampleConfig).init sampleInit :=
    ⟨rfl, rfl, fun _ => rfl, fun _ _ => rfl, fun _ _ => rfl⟩
  apply TransitionSystem.Reachable.foldlM _ (.start hstart) hrun
  intro p action p' hstep
  split_ifs at hstep with htest
  rw [Option.some.injEq] at hstep
  refine ⟨?_, hstep.symm⟩
  cases action with
  | start t =>
    intro _
    simp only [testWithin, Bool.and_eq_true, decide_eq_true_eq, List.all_eq_true] at htest
    exact ⟨p.skip.tick, htest.1, htest.2⟩
  | stop t | remove t | control t command | tick => trivial

theorem refinesSorted_in_sample :
    ∃ p : Pair (Fin 4), (pairSystem sampleConfig).Reachable (WithinHalfRange sampleConfig) p ∧
      p.skip.bottom sampleConfig .hard = [2, 0, 3] ∧ p.skip.lists .hard 0 = [0] ∧
      RefinesSorted sampleConfig p := by
  have hrun : (sampleRun [.start 0, .start 1, .start 2, .tick, .start 3, .stop 1]).map
      (fun p => (p.skip.bottom sampleConfig .hard, p.skip.lists .hard 0)) =
      some ([2, 0, 3], [0]) := by decide +kernel
  rcases Option.map_eq_some_iff.mp hrun with ⟨p, hp, hrows⟩
  have hreach := reachable_sampleRun hp
  exact ⟨p, hreach, (Prod.mk.inj hrows).1, (Prod.mk.inj hrows).2,
    refinesSorted_of_reachable _ p hreach⟩

end RtThread.Timer.Refinement
