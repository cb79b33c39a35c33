import RtThread.TimerRows

/-!
# The scan of the soft timers

`rt_soft_timer_check` saves the successor of a timer before it unlinks the timer and
calls its timeout function, and goes on with that successor afterwards.  A timeout
function which unlinks the saved successor leaves it linked to itself.
-/

namespace RtThread.Timer

open Function List Word

variable {τ : Type} [DecidableEq τ] {cfg : SkipConfig} {t u : τ}

/-- Where `rt_soft_timer_check` is: not running, in front of its loop test at a node,
or inside a timeout function with the saved node.  No node stands for the list head. -/
inductive ScanPhase (τ : Type) where
  | idle
  | node (n : Option τ) (currentTick : ℕ)
  | calling (t : τ) (n : Option τ)
  deriving DecidableEq

def nextNode (row : List τ) (t : τ) : Option τ :=
  if t ∈ row then (SkipList.behind (some t) row).head? else some t

def scanBegin (cfg : SkipConfig) (s : TimerState τ) : ScanPhase τ :=
  .node (s.bottom cfg .soft).head? s.tick

/-- One test of the loop of `rt_soft_timer_check`, up to the call of the timeout
function, or what follows a timeout function. -/
def scanStep (cfg : SkipConfig) (s : TimerState τ) : ScanPhase τ → TimerState τ × ScanPhase τ
  | .idle => (s, .idle)
  | .node none _ => (s, .idle)
  | .node (some t) currentTick =>
    if expired currentTick (s.timers t) then
      (rtTimerRemove s t, .calling t (nextNode (s.bottom cfg .soft) t))
    else (s, .idle)
  | .calling t n => (afterTimeout cfg s t, .node n s.tick)

namespace Scan

/-- The timers and the scan.  The other members are history: the timers which have been
stopped since they were started last, whether the timeout function of such a timer has
been called, and for the current scan the calls of timeout functions, the starts of
timers by them, the ticks since it began and the timers which were linked then. -/
structure ScanState (τ : Type) where
  core : TimerState τ
  phase : ScanPhase τ
  stopped : τ → Bool
  calledStopped : Bool
  calls : ℕ
  restarts : ℕ
  ticks : ℕ
  linkedAtBegin : ℕ

/-- `begin` enters the scan, `next` is one test of its loop and `finish` follows a
timeout function.  The other steps are taken while the scan does not run and by
timeout functions. -/
inductive Action (τ : Type) where
  | start (t : τ)
  | stop (t : τ)
  | control (t : τ) (command : TimerControl)
  | tick
  | begin
  | next
  | finish
  deriving DecidableEq

def ScanState.Open (s : ScanState τ) : Prop :=
  s.phase = .idle ∨ ∃ t n, s.phase = .calling t n

def Action.Enabled (s : ScanState τ) : Action τ → Prop
  | .start _ => s.Open
  | .stop _ => s.Open
  | .control _ _ => s.Open
  | .tick => s.Open
  | .begin => s.phase = .idle
  | .next => ∃ n currentTick, s.phase = .node n currentTick
  | .finish => ∃ t n, s.phase = .calling t n

def calledNext (s : ScanState τ) : Option τ :=
  match s.phase with
  | .node (some t) currentTick => if expired currentTick (s.core.timers t) then some t else none
  | _ => none

def execute (cfg : SkipConfig) (s : ScanState τ) : Action τ → ScanState τ
  | .start t =>
    match rtTimerStart cfg s.core t with
    | some core =>
      { s with
        core := core
        stopped := update s.stopped t false
        restarts := s.restarts + 1 }
    | none => s
  | .stop t =>
    { s with
      core := (rtTimerStop s.core t).getD s.core
      stopped := update s.stopped t true }
  | .control t command => { s with core := rtTimerControl s.core t command }
  | .tick =>
    { s with
      core := { s.core with tick := add32 s.core.tick 1 }
      ticks := s.ticks + 1 }
  | .begin =>
    { s with
      phase := scanBegin cfg s.core
      calls := 0
      restarts := 0
      ticks := 0
      linkedAtBegin := (s.core.bottom cfg .soft).length }
  | .next =>
    { s with
      core := (scanStep cfg s.core s.phase).1
      phase := (scanStep cfg s.core s.phase).2
      calledStopped := s.calledStopped || (calledNext s).any s.stopped
      calls := s.calls + (calledNext s).toList.length }
  | .finish =>
    { s with
      core := (scanStep cfg s.core s.phase).1
      phase := (scanStep cfg s.core s.phase).2 }

def scanSystem (cfg : SkipConfig) : TransitionSystem (ScanState τ) (Action τ) where
  init s := s.phase = .idle ∧ s.calledStopped = false ∧
      (∀ t, (s.core.timers t).activated = false) ∧ ∀ k r, s.core.lists k r = []
  step s action s' := action.Enabled s ∧ s' = execute cfg s action

/-- When a timeout function returns, its own timer is in no list, the saved node is the
list head, still linked or not expired, and a periodic timer which is started again
has a period of at least one tick and less than half the range. -/
def KeepsSuccessor (cfg : SkipConfig) (s : ScanState τ) : Action τ → Prop
  | .finish => ∀ t n, s.phase = .calling t n → ¬Linked cfg s.core t ∧
        (∀ u ∈ n, u ∈ s.core.bottom cfg .soft ∨ expired s.core.tick (s.core.timers u) = false) ∧
        ((s.core.timers t).periodic = true → (s.core.timers t).activated = true →
          0 < (s.core.timers t).initTick ∧ (s.core.timers t).initTick < rtTickMax / 2)
  | _ => True

def expiredCount (cfg : SkipConfig) (s : TimerState τ) : ℕ :=
  (s.bottom cfg .soft).countP fun t => expired s.tick (s.timers t)

/-- The calls made and the calls which are due stay within the timers of the scan,
counted once for each tick. -/
def WithinBound (cfg : SkipConfig) (s : ScanState τ) : Prop :=
  s.calls + expiredCount cfg s.core ≤ (s.linkedAtBegin + s.restarts) * (s.ticks + 1)

def Fits (cfg : SkipConfig) (s : ScanState τ) : Prop :=
  match s.phase with
  | .idle => True
  | .node n currentTick =>
    currentTick = s.core.tick ∧ (∀ u ∈ n, u ∈ s.core.bottom cfg .soft ∨
        expired s.core.tick (s.core.timers u) = false) ∧
      (s.core.bottom cfg .soft).length ≤ s.linkedAtBegin + s.restarts ∧ WithinBound cfg s
  | .calling _ _ =>
    (s.core.bottom cfg .soft).length < s.linkedAtBegin + s.restarts ∧ WithinBound cfg s

/-- No stopped timer is active, and none was called. -/
structure ScanInv (cfg : SkipConfig) (s : ScanState τ) : Prop where
  rows : RowsInv cfg s.core
  running : ∀ t, (s.core.timers t).activated = true → s.stopped t = false
  fits : Fits cfg s
  clean : s.calledStopped = false

section Counts

variable {s s' : TimerState τ}

omit [DecidableEq τ] in
theorem expiredCount_le_length : expiredCount cfg s ≤ (s.bottom cfg .soft).length :=
  countP_le_length

omit [DecidableEq τ] in
theorem expired_startedTimer (hpos : 0 < (s.timers t).initTick)
    (hlt : (s.timers t).initTick < rtTickMax / 2) : expired s.tick (startedTimer s t) = false := by
  unfold expired startedTimer sub32 add32 rtTickMax at *
  simp only [decide_eq_false_iff_not]
  omega

theorem expired_restarted (hpos : 0 < (s.timers t).initTick)
    (hlt : (s.timers t).initTick < rtTickMax / 2) :
    expired s.tick (startedTimer (setActivated s t false) t) = false := by
  have hlive : expired (setActivated s t false).tick
      (startedTimer (setActivated s t false) t) = false :=
    expired_startedTimer (by simpa using hpos) (by simpa using hlt)
  exact hlive

theorem counts_rtTimerStart (hrows : RowsInv cfg s) (hstart : rtTimerStart cfg s t = some s') :
    (s'.bottom cfg .soft).length ≤ (s.bottom cfg .soft).length + 1 ∧ expiredCount cfg s' ≤
        expiredCount cfg s + if expired s.tick (startedTimer s t) then 1 else 0 := by
  rcases rtTimerStart_eq_some hstart with ⟨hinactive, htick, htimers, hother, -⟩
  have hcount : (s.bottom cfg .soft).countP (fun u => expired s'.tick (s'.timers u)) =
      expiredCount cfg s := by
    apply countP_congr
    intro u hu
    have hne : u ≠ t := hrows.ne_of_inactive hinactive hu
    rw [htick, htimers, update_of_ne hne]
  by_cases hsoft : TimerList.soft = (s.timers t).list
  · have hperm := hrows.bottom_rtTimerStart_perm hstart
    rw [← hsoft] at hperm
    constructor
    · rw [hperm.length_eq, length_cons]
    · unfold expiredCount
      rw [hperm.countP_eq, countP_cons, hcount, htick, htimers, update_self]
      rfl
  · have hbottom : s'.bottom cfg .soft = s.bottom cfg .soft := by
      unfold TimerState.bottom
      rw [hother _ hsoft]
    unfold expiredCount
    rw [hbottom, hcount]
    exact ⟨Nat.le_succ _, Nat.le_add_right _ _⟩

omit [DecidableEq τ] in
theorem expiredCount_le (htick : s'.tick = s.tick)
    (hsub : (s'.bottom cfg .soft).Sublist (s.bottom cfg .soft))
    (htimeout : ∀ u, (s'.timers u).timeoutTick = (s.timers u).timeoutTick) :
    expiredCount cfg s' ≤ expiredCount cfg s := by
  have hsame : (fun u => expired s'.tick (s'.timers u)) = fun u => expired s.tick (s.timers u) := by
    funext u
    unfold expired
    rw [htick, htimeout]
  unfold expiredCount
  rw [hsame]
  exact hsub.countP_le

theorem counts_rtTimerRemove (ht : t ∈ s.bottom cfg .soft)
    (hexpired : expired s.tick (s.timers t) = true) :
    ((rtTimerRemove s t).bottom cfg .soft).length + 1 = (s.bottom cfg .soft).length ∧
      expiredCount cfg (rtTimerRemove s t) + 1 = expiredCount cfg s := by
  have hperm := perm_cons_erase ht
  constructor
  · rw [hperm.length_eq, length_cons]
    rfl
  · unfold expiredCount
    rw [hperm.countP_eq, countP_cons, if_pos hexpired]
    rfl

theorem counts_afterTimeout (hrows : RowsInv cfg s) (hunlinked : ¬Linked cfg s t)
    (hperiod : (s.timers t).periodic = true → (s.timers t).activated = true →
      0 < (s.timers t).initTick ∧ (s.timers t).initTick < rtTickMax / 2) :
    ((afterTimeout cfg s t).bottom cfg .soft).length ≤ (s.bottom cfg .soft).length + 1 ∧
      expiredCount cfg (afterTimeout cfg s t) ≤ expiredCount cfg s := by
  have hcount : expiredCount cfg (setActivated s t false) ≤ expiredCount cfg s := by
    apply expiredCount_le
    · rfl
    · exact Sublist.refl _
    · intro u
      by_cases hu : u = t
      · simp [hu]
      · simp [hu]
  rcases afterTimeout_cases cfg s t with ⟨hperiodic, hactive, hstart⟩ | ⟨-, heq⟩
  · rcases hperiod hperiodic hactive with ⟨hpos, hlt⟩
    have hcounts := counts_rtTimerStart (hrows.setActivated false hunlinked) hstart
    rw [setActivated_tick, expired_restarted hpos hlt] at hcounts
    exact ⟨hcounts.1, hcounts.2.trans hcount⟩
  · rw [heq]
    exact ⟨Nat.le_succ _, hcount⟩

theorem saved_afterTimeout (hrows : RowsInv cfg s) (hunlinked : ¬Linked cfg s t)
    (hperiod : (s.timers t).periodic = true → (s.timers t).activated = true →
      0 < (s.timers t).initTick ∧ (s.timers t).initTick < rtTickMax / 2)
    (hu : u ∈ s.bottom cfg .soft ∨ expired s.tick (s.timers u) = false) :
    u ∈ (afterTimeout cfg s t).bottom cfg .soft ∨
      expired s.tick ((afterTimeout cfg s t).timers u) = false := by
  rcases hu with hmem | hlive
  · exact .inl (hrows.mem_afterTimeout hunlinked hmem)
  · right
    rcases afterTimeout_cases cfg s t with ⟨hperiodic, hactive, hstart⟩ | ⟨-, heq⟩
    · rcases hperiod hperiodic hactive with ⟨hpos, hlt⟩
      rw [(rtTimerStart_eq_some hstart).2.2.1]
      by_cases hut : u = t
      · rw [hut, update_self]
        exact expired_restarted hpos hlt
      · simpa [hut] using hlive
    · rw [heq]
      by_cases hut : u = t
      · simpa [hut, expired] using hlive
      · simpa [hut] using hlive

end Counts

namespace ScanInv

variable {s s' : ScanState τ}

omit [DecidableEq τ] in
theorem fits_of_open (hinv : ScanInv cfg s) (hopen : s.Open) (hphase : s'.phase = s.phase)
    (hkept : (s.core.bottom cfg .soft).length < s.linkedAtBegin + s.restarts → WithinBound cfg s →
        (s'.core.bottom cfg .soft).length < s'.linkedAtBegin + s'.restarts ∧ WithinBound cfg s') :
    Fits cfg s' := by
  have hfits := hinv.fits
  unfold Fits at hfits ⊢
  rw [hphase]
  rcases hopen with hidle | ⟨t, n, hcalling⟩
  · rw [hidle]
    trivial
  · rw [hcalling] at hfits ⊢
    exact hkept hfits.1 hfits.2

section

variable (hinv : ScanInv cfg s)
include hinv

theorem start (hopen : s.Open) : ScanInv cfg (execute cfg s (.start t)) := by
  cases hactive : (s.core.timers t).activated with
  | true =>
    rw [show execute cfg s (.start t) = s by simp [execute, rtTimerStart_of_active hactive]]
    exact hinv
  | false =>
    rcases rtTimerStart_of_inactive cfg hactive with ⟨core, hcore⟩
    have heq : execute cfg s (.start t) =
        { s with
          core := core
          stopped := update s.stopped t false
          restarts := s.restarts + 1 } := by
      simp [execute, hcore]
    have hcounts := counts_rtTimerStart hinv.rows hcore
    have htimers := (rtTimerStart_eq_some hcore).2.2.1
    rw [heq]
    refine ⟨hinv.rows.rtTimerStart hcore, ?_, ?_, hinv.clean⟩
    · intro u hu
      by_cases hut : u = t
      · simp [hut]
      · have hold := hinv.running u
        rw [htimers] at hu
        simp only [update_of_ne hut] at hu ⊢
        exact hold hu
    · apply fits_of_open hinv hopen
      · rfl
      · intro hlength hbound
        unfold WithinBound at hbound ⊢
        constructor
        · calc
            (core.bottom cfg .soft).length ≤ (s.core.bottom cfg .soft).length + 1 := hcounts.1
            _ < s.linkedAtBegin + (s.restarts + 1) := by lia
        · calc
            s.calls + expiredCount cfg core ≤ s.calls + expiredCount cfg s.core + 1 := by lia
            _ ≤ (s.linkedAtBegin + s.restarts) * (s.ticks + 1) + (s.ticks + 1) := by lia
            _ = (s.linkedAtBegin + (s.restarts + 1)) * (s.ticks + 1) := by ring

theorem stop (hopen : s.Open) : ScanInv cfg (execute cfg s (.stop t)) := by
  cases hactive : (s.core.timers t).activated with
  | false =>
    have heq : execute cfg s (.stop t) =
        { s with stopped := update s.stopped t true } := by
      simp [execute, rtTimerStop, hactive]
    rw [heq]
    refine ⟨hinv.rows, ?_, ?_, hinv.clean⟩
    · intro u hu
      have hne : u ≠ t := by
        rintro rfl
        rw [hactive] at hu
        exact Bool.false_ne_true hu
      simpa [hne] using hinv.running u hu
    · apply fits_of_open hinv hopen
      · rfl
      · intro hlength hbound
        exact ⟨hlength, hbound⟩
  | true =>
    have hstop : rtTimerStop s.core t =
        some (setActivated (rtTimerRemove s.core t) t false) := if_pos hactive
    have heq : execute cfg s (.stop t) =
        { s with
          core := setActivated (rtTimerRemove s.core t) t false
          stopped := update s.stopped t true } := by
      simp [execute, hstop]
    rw [heq]
    have hsub : ((setActivated (rtTimerRemove s.core t) t false).bottom cfg .soft).Sublist
        (s.core.bottom cfg .soft) := erase_sublist
    refine ⟨hinv.rows.rtTimerStop hstop, ?_, ?_, hinv.clean⟩
    · intro u hu
      by_cases hut : u = t
      · simp [hut] at hu
      · have hold := hinv.running u
        simp only [setActivated_timers, rtTimerRemove_timers, update_of_ne hut] at hu ⊢
        exact hold hu
    · apply fits_of_open hinv hopen
      · rfl
      · intro hlength hbound
        have hcount : expiredCount cfg (setActivated (rtTimerRemove s.core t) t false) ≤
            expiredCount cfg s.core := by
          apply expiredCount_le _ hsub
          · intro u
            by_cases hu : u = t
            · simp [hu]
            · simp [hu]
          · rfl
        exact ⟨lt_of_le_of_lt hsub.length_le hlength, (Nat.add_le_add_left hcount _).trans hbound⟩

theorem control (hopen : s.Open) (command : TimerControl) :
    ScanInv cfg (execute cfg s (.control t command)) := by
  have hbottom : ∀ k, (rtTimerControl s.core t command).bottom cfg k = s.core.bottom cfg k := by
    intro k
    cases command <;> rfl
  refine ⟨hinv.rows.rtTimerControl t command, ?_, ?_, hinv.clean⟩
  · intro u hu
    apply hinv.running u
    by_cases hut : u = t
    · subst hut
      cases command <;> simpa [execute, rtTimerControl] using hu
    · cases command <;> simpa [execute, rtTimerControl, hut] using hu
  · apply fits_of_open hinv hopen
    · rfl
    · intro hlength hbound
      have hcount : expiredCount cfg (rtTimerControl s.core t command) ≤
          expiredCount cfg s.core := by
        apply expiredCount_le
        · cases command <;> rfl
        · rw [hbottom]
        · intro u
          by_cases hu : u = t
          · subst hu
            cases command <;> simp [rtTimerControl]
          · cases command <;> simp [rtTimerControl, hu]
      exact ⟨(hbottom .soft).symm ▸ hlength, (Nat.add_le_add_left hcount _).trans hbound⟩

theorem tick (hopen : s.Open) : ScanInv cfg (execute cfg s .tick) := by
  refine ⟨hinv.rows.of_timers rfl (fun _ _ _ => ⟨rfl, rfl, rfl⟩), hinv.running, ?_, hinv.clean⟩
  apply fits_of_open hinv hopen
  · rfl
  · intro hlength hbound
    have hcount : expiredCount cfg (execute cfg s .tick).core ≤
        (s.core.bottom cfg .soft).length := expiredCount_le_length
    refine ⟨hlength, ?_⟩
    unfold WithinBound at hbound ⊢
    calc
      s.calls + expiredCount cfg (execute cfg s .tick).core ≤
          (s.linkedAtBegin + s.restarts) * (s.ticks + 1) + (s.linkedAtBegin + s.restarts) := by
        omega
      _ = (s.linkedAtBegin + s.restarts) * (s.ticks + 1 + 1) := by ring

theorem begin : ScanInv cfg (execute cfg s .begin) := by
  refine ⟨hinv.rows, hinv.running, ?_, hinv.clean⟩
  refine ⟨rfl, ?_, le_rfl, ?_⟩
  · intro u hu
    exact .inl (mem_of_mem_head? hu)
  · have hcount : expiredCount cfg s.core ≤ (s.core.bottom cfg .soft).length :=
      expiredCount_le_length
    unfold WithinBound
    simpa [execute] using hcount

theorem next {n : Option τ} {currentTick : ℕ}
    (hphase : s.phase = .node n currentTick) : ScanInv cfg (execute cfg s .next) := by
  have hfits := hinv.fits
  unfold Fits at hfits
  rw [hphase] at hfits
  rcases hfits with ⟨htick, hsaved, hlength, hbound⟩
  subst htick
  -- the loop ends where no timer is called
  have hend : calledNext s = none → scanStep cfg s.core s.phase = (s.core, .idle) →
      ScanInv cfg (execute cfg s .next) := by
    intro hnone hstep
    have heq : execute cfg s .next = { s with phase := .idle } := by
      simp [execute, hnone, hstep]
    rw [heq]
    exact ⟨hinv.rows, hinv.running, trivial, hinv.clean⟩
  cases n with
  | none =>
    apply hend
    · simp [calledNext, hphase]
    · simp [scanStep, hphase]
  | some t =>
    cases hexpired : expired s.core.tick (s.core.timers t) with
    | false =>
      apply hend
      · simp [calledNext, hphase, hexpired]
      · simp [scanStep, hphase, hexpired]
    | true =>
      have ht : t ∈ s.core.bottom cfg .soft := by
        rcases hsaved t rfl with ht | hnot
        · exact ht
        · rw [hexpired] at hnot
          exact absurd hnot.symm Bool.false_ne_true
      have hrunning := hinv.running t (hinv.rows.active _ t ht)
      have heq : execute cfg s .next =
          { s with
            core := rtTimerRemove s.core t
            phase := .calling t (nextNode (s.core.bottom cfg .soft) t)
            calls := s.calls + 1 } := by
        simp [execute, calledNext, scanStep, hphase, hexpired, hrunning]
      rcases counts_rtTimerRemove ht hexpired with ⟨hless, hfewer⟩
      rw [heq]
      refine ⟨hinv.rows.rtTimerRemove t, hinv.running, ?_, hinv.clean⟩
      · unfold WithinBound at hbound
        constructor
        · calc
            ((rtTimerRemove s.core t).bottom cfg .soft).length <
                (s.core.bottom cfg .soft).length := by omega
            _ ≤ s.linkedAtBegin + s.restarts := hlength
        · unfold WithinBound
          calc
            s.calls + 1 + expiredCount cfg (rtTimerRemove s.core t) =
                s.calls + expiredCount cfg s.core := by omega
            _ ≤ (s.linkedAtBegin + s.restarts) * (s.ticks + 1) := hbound

theorem finish {n : Option τ} (hphase : s.phase = .calling t n)
    (hguard : KeepsSuccessor cfg s .finish) : ScanInv cfg (execute cfg s .finish) := by
  rcases hguard t n hphase with ⟨hunlinked, hsaved, hperiod⟩
  have hfits := hinv.fits
  unfold Fits at hfits
  rw [hphase] at hfits
  rcases hfits with ⟨hlength, hbound⟩
  have heq : execute cfg s .finish =
      { s with core := afterTimeout cfg s.core t, phase := .node n s.core.tick } := by
    simp [execute, scanStep, hphase]
  rcases hinv.rows.afterTimeout hunlinked with ⟨hrows, -, hother, hself⟩
  have htick : (afterTimeout cfg s.core t).tick = s.core.tick := afterTimeout_tick
  have hcounts := counts_afterTimeout hinv.rows hunlinked hperiod
  rw [heq]
  refine ⟨hrows, ?_, ?_, hinv.clean⟩
  · intro u hu
    apply hinv.running u
    by_cases hut : u = t
    · subst hut
      rw [hself, Bool.and_eq_true] at hu
      exact hu.2
    · rw [← hother u hut]
      exact hu
  · refine ⟨htick.symm, ?_, ?_, ?_⟩
    · intro u hu
      rw [htick]
      exact saved_afterTimeout hinv.rows hunlinked hperiod (hsaved u hu)
    · calc
        ((afterTimeout cfg s.core t).bottom cfg .soft).length ≤
            (s.core.bottom cfg .soft).length + 1 := hcounts.1
        _ ≤ s.linkedAtBegin + s.restarts := hlength
    · unfold WithinBound at hbound ⊢
      exact (Nat.add_le_add_left hcounts.2 _).trans hbound

theorem execute {action : Action τ} (henabled : action.Enabled s)
    (hguard : KeepsSuccessor cfg s action) : ScanInv cfg (execute cfg s action) := by
  cases action with
  | start t => exact hinv.start henabled
  | stop t => exact hinv.stop henabled
  | control t command => exact hinv.control henabled command
  | tick => exact hinv.tick henabled
  | begin => exact hinv.begin
  | next =>
    rcases henabled with ⟨n, currentTick, hphase⟩
    exact hinv.next hphase
  | finish =>
    rcases henabled with ⟨t, n, hphase⟩
    exact hinv.finish hphase hguard

end

theorem of_init (hinit : (scanSystem cfg).init s) : ScanInv cfg s := by
  rcases hinit with ⟨hphase, hclean, hinactive, hlists⟩
  refine ⟨RowsInv.of_empty hlists, ?_, ?_, hclean⟩
  · intro t ht
    rw [hinactive] at ht
    cases ht
  · unfold Fits
    rw [hphase]
    trivial

theorem of_reachable (hreach : (scanSystem cfg).Reachable (KeepsSuccessor cfg) s) :
    ScanInv cfg s := by
  apply hreach.invariant
  · intro s hinit
    exact of_init hinit
  · rintro s action s' hinv hguard ⟨henabled, rfl⟩
    exact hinv.execute henabled hguard

end ScanInv

section Termination

variable {s : ScanState τ}

theorem calls_le_execute {action : Action τ} (hbegin : action ≠ .begin) :
    s.calls ≤ (execute cfg s action).calls := by
  cases action with
  | begin => contradiction
  | start t =>
    cases hstart : rtTimerStart cfg s.core t with
    | none | some core => simp [execute, hstart]
  | stop t | control t command | tick => exact le_rfl
  | next => exact Nat.le_add_right _ _
  | finish => exact le_rfl

theorem bound_execute {action : Action τ} (hbegin : action ≠ .begin) (htick : action ≠ .tick)
    (hstart : ∀ t, action = .start t → (s.core.timers t).activated = true) :
    ((execute cfg s action).linkedAtBegin + (execute cfg s action).restarts) *
      ((execute cfg s action).ticks + 1) = (s.linkedAtBegin + s.restarts) * (s.ticks + 1) := by
  cases action with
  | begin | tick => contradiction
  | start t =>
    rw [show execute cfg s (.start t) = s by
      simp [execute, rtTimerStart_of_active (hstart t rfl)]]
  | stop t | control t command | next | finish => rfl

theorem calls_next {n : Option τ} {currentTick : ℕ} (hphase : s.phase = .node n currentTick)
    (hgoesOn : (execute cfg s .next).phase ≠ .idle) : s.calls < (execute cfg s .next).calls := by
  cases n with
  | none => simp [execute, scanStep, hphase] at hgoesOn
  | some t =>
    cases hexpired : expired currentTick (s.core.timers t) with
    | false => simp [execute, scanStep, hphase, hexpired] at hgoesOn
    | true => simp [execute, calledNext, hphase, hexpired]

theorem scan_ends {states : ℕ → ScanState τ} {actions : ℕ → Action τ}
    (hrun : (scanSystem cfg).Run (KeepsSuccessor cfg) states actions)
    (hfinite : ∃ bound, ∀ i, bound ≤ i → actions i ≠ .tick ∧
      ∀ t, actions i = .start t → ((states i).core.timers t).activated = true)
    (hreturns : ∀ i t n, (states i).phase = .calling t n → ∃ j, i ≤ j ∧ actions j = .finish) :
    ∀ i, ∃ j, i ≤ j ∧ (states j).phase = .idle := by
  intro i₀
  by_contra hnever
  have hbusy : ∀ j, i₀ ≤ j → (states j).phase ≠ .idle := by
    intro j hj hidle
    exact hnever ⟨j, hj, hidle⟩
  rcases hfinite with ⟨quiet, hquiet⟩
  have hstep : ∀ i, (states (i + 1)) = execute cfg (states i) (actions i) :=
    fun i => (hrun.step i).2
  have hbegin : ∀ i, i₀ ≤ i → actions i ≠ .begin := by
    intro i hi heq
    have henabled := (hrun.step i).1
    rw [heq] at henabled
    exact hbusy i hi henabled
  -- the bound stays the same from here on
  have hsame : ∀ i, max i₀ quiet ≤ i →
      ((states i).linkedAtBegin + (states i).restarts) * ((states i).ticks + 1) =
        ((states (max i₀ quiet)).linkedAtBegin + (states (max i₀ quiet)).restarts) *
          ((states (max i₀ quiet)).ticks + 1) := by
    intro i hi
    induction i, hi using Nat.le_induction with
    | base => rfl
    | succ i hi ih =>
      have hnot := hquiet i (by lia)
      rw [hstep, bound_execute (hbegin i (by lia)) hnot.1 hnot.2, ih]
  have hwithin : ∀ i, i₀ ≤ i → (states i).calls ≤
      ((states i).linkedAtBegin + (states i).restarts) * ((states i).ticks + 1) := by
    intro i hi
    have hfits := (ScanInv.of_reachable (hrun.reachable i)).fits
    unfold Fits WithinBound at hfits
    cases hphase : (states i).phase with
    | idle => exact absurd hphase (hbusy i hi)
    | node n currentTick =>
      rw [hphase] at hfits
      exact (Nat.le_add_right _ _).trans hfits.2.2.2
    | calling t n =>
      rw [hphase] at hfits
      exact (Nat.le_add_right _ _).trans hfits.2
  -- every test of the loop is a call
  have hcall : ∀ i n currentTick, i₀ ≤ i → (states i).phase = .node n currentTick →
      (states i).calls < (states (i + 1)).calls := by
    intro i n currentTick hi hphase
    have henabled := (hrun.step i).1
    have hnext : actions i = .next := by
      cases haction : actions i with
      | next => rfl
      | begin => exact absurd haction (hbegin i hi)
      | start t | stop t | control t command | tick =>
        simp [haction, Action.Enabled, ScanState.Open, hphase] at henabled
      | finish => simp [haction, Action.Enabled, hphase] at henabled
    have hgoesOn := hbusy (i + 1) (by lia)
    rw [hstep, hnext] at hgoesOn ⊢
    exact calls_next hphase hgoesOn
  have hrising : ∀ i, max i₀ quiet ≤ i →
      ∃ j, i ≤ j ∧ (states j).calls < (states (j + 1)).calls := by
    intro i hi
    cases hphase : (states i).phase with
    | idle => exact absurd hphase (hbusy i (by lia))
    | node n currentTick => exact ⟨i, le_rfl, hcall i n currentTick (by lia) hphase⟩
    | calling t n =>
      rcases hreturns i t n hphase with ⟨j, hj, hfinish⟩
      have henabled := (hrun.step j).1
      rw [hfinish] at henabled
      rcases henabled with ⟨t', n', hcalling⟩
      have hnode : (states (j + 1)).phase = .node n' (states j).core.tick := by
        rw [hstep, hfinish]
        simp [execute, scanStep, hcalling]
      exact ⟨j + 1, by lia, hcall (j + 1) _ _ (by lia) hnode⟩
  have hmono : ∀ i, max i₀ quiet ≤ i → (states i).calls ≤ (states (i + 1)).calls := by
    intro i hi
    rw [hstep]
    exact calls_le_execute (hbegin i (by lia))
  rcases exists_lt_of_rising hmono hrising
    (((states (max i₀ quiet)).linkedAtBegin + (states (max i₀ quiet)).restarts) *
      ((states (max i₀ quiet)).ticks + 1)) with ⟨i, hi, hlt⟩
  have hle := hwithin i (by lia)
  rw [hsame i hi] at hle
  lia

end Termination

/-- In every guarded run no timeout function of a stopped timer is called, and every
scan with finitely many restarts and ticks ends. -/
theorem softTimers_stay_stopped_and_scan_ends (cfg : SkipConfig) :
    (∀ s : ScanState τ, (scanSystem cfg).Reachable (KeepsSuccessor cfg) s →
      s.calledStopped = false) ∧ ∀ (states : ℕ → ScanState τ) (actions : ℕ → Action τ),
      (scanSystem cfg).Run (KeepsSuccessor cfg) states actions →
      (∃ bound, ∀ i, bound ≤ i → actions i ≠ .tick ∧
        ∀ t, actions i = .start t → ((states i).core.timers t).activated = true) →
      (∀ i t n, (states i).phase = .calling t n → ∃ j, i ≤ j ∧ actions j = .finish) →
      ∀ i, ∃ j, i ≤ j ∧ (states j).phase = .idle := by
  constructor
  · intro s hreach
    exact (ScanInv.of_reachable hreach).clean
  · intro states actions hrun hfinite hreturns
    exact scan_ends hrun hfinite hreturns

instance (s : ScanState Bool) : Decidable s.Open :=
  match hphase : s.phase with
  | .idle => isTrue (.inl hphase)
  | .node _ _ => isFalse (by simp [ScanState.Open, hphase])
  | .calling t n => isTrue (.inr ⟨t, n, hphase⟩)

def enabledTest (s : ScanState Bool) : Action Bool → Bool
  | .begin => decide (s.phase = .idle)
  | .next => match s.phase with
      | .node _ _ => true
      | _ => false
  | .finish => match s.phase with
      | .calling _ _ => true
      | _ => false
  | _ => decide s.Open

theorem enabled_of_enabledTest {s : ScanState Bool} {action : Action Bool}
    (htest : enabledTest s action = true) : action.Enabled s := by
  cases action with
  | start t | stop t | control t command | tick | begin =>
    simpa [enabledTest, Action.Enabled] using htest
  | next =>
    cases hphase : s.phase with
    | node n currentTick => exact ⟨n, currentTick, hphase⟩
    | idle | calling t n => simp [enabledTest, hphase] at htest
  | finish =>
    cases hphase : s.phase with
    | calling t n => exact ⟨t, n, hphase⟩
    | idle | node n currentTick => simp [enabledTest, hphase] at htest

def keepsTest (s : ScanState Bool) : Action Bool → Bool
  | .finish => match s.phase with
      | .calling t n =>
        !decide (Linked defaultConfig s.core t) &&
          (n.all fun u => decide (u ∈ s.core.bottom defaultConfig .soft) ||
            !expired s.core.tick (s.core.timers u)) && (decide (0 < (s.core.timers t).initTick) &&
            decide ((s.core.timers t).initTick < rtTickMax / 2))
      | _ => true
  | _ => true

theorem keepsSuccessor_of_keepsTest (s : ScanState Bool) (action : Action Bool)
    (htest : keepsTest s action = true) : KeepsSuccessor defaultConfig s action := by
  cases action with
  | finish =>
    intro t n hphase
    simp only [keepsTest, hphase, Bool.and_eq_true, Bool.not_eq_true', decide_eq_false_iff_not,
      decide_eq_true_eq] at htest
    rcases htest with ⟨⟨hunlinked, hsaved⟩, hperiod⟩
    refine ⟨hunlinked, ?_, fun _ _ => hperiod⟩
    intro u hu
    rw [Option.mem_def.mp hu] at hsaved
    simpa using hsaved
  | start t | stop t | control t command | tick | begin | next => trivial

def sampleInit (delay : ℕ) : ScanState Bool where
  core := ⟨4294967295, 0, fun t => ⟨0, if t then delay else 1, false, true, false⟩, fun _ _ => []⟩
  phase := .idle
  stopped := fun _ => false
  calledStopped := false
  calls := 0
  restarts := 0
  ticks := 0
  linkedAtBegin := 0

def sampleStep (test : ScanState Bool → Action Bool → Bool) (s : ScanState Bool)
    (action : Action Bool) : Option (ScanState Bool) :=
  if enabledTest s action && test s action then some (execute defaultConfig s action) else none

theorem sampleInit_init (delay : ℕ) : (scanSystem defaultConfig).init (sampleInit delay) :=
  ⟨rfl, rfl, fun _ => rfl, fun _ _ => rfl⟩

theorem sampleStep_sound {guard : ScanState Bool → Action Bool → Prop}
    {test : ScanState Bool → Action Bool → Bool}
    (hsound : ∀ s action, test s action = true → guard s action) :
    ∀ s action s', sampleStep test s action = some s' →
      guard s action ∧ (scanSystem defaultConfig).step s action s' := by
  intro s action s' hstep
  unfold sampleStep at hstep
  split_ifs at hstep with htest
  rw [Bool.and_eq_true] at htest
  rw [Option.some.injEq] at hstep
  exact ⟨hsound s action htest.2, enabled_of_enabledTest htest.1, hstep.symm⟩

def sampleActions : List (Action Bool) :=
  [.start true, .start false, .tick, .begin, .next, .stop true, .finish, .next]

theorem scan_ends_in_sample : ∃ (states : ℕ → ScanState Bool) (actions : ℕ → Action Bool),
      (scanSystem defaultConfig).Run (KeepsSuccessor defaultConfig) states actions ∧
        (states 8).calls = 1 ∧ (states 8).calledStopped = false ∧
        ∀ i, ∃ j, i ≤ j ∧ (states j).phase = .idle := by
  have hfold : ((sampleActions.foldlM (sampleStep keepsTest) (sampleInit 2)).map
      fun s => (s.phase, s.calls)) = some (.idle, 1) := by decide +kernel
  rcases Option.map_eq_some_iff.mp hfold with ⟨last, hlast, hvalues⟩
  rw [Prod.mk.injEq] at hvalues
  have hsound := sampleStep_sound keepsSuccessor_of_keepsTest
  rcases TransitionSystem.Run.of_foldlM hsound (.control true .getTime)
    (.start (sampleInit_init 2)) hlast trivial ⟨.inl hvalues.1, rfl⟩ with
    ⟨states, actions, hrun, -, hafter, hlist⟩
  have hlength : sampleActions.length = 8 := rfl
  rw [hlength] at hafter
  have hboth := @softTimers_stay_stopped_and_scan_ends Bool _ defaultConfig
  refine ⟨states, actions, hrun, ?_, hboth.1 _ (hrun.reachable 8), ?_⟩
  · rw [(hafter 8 le_rfl).1]
    exact hvalues.2
  · apply hboth.2 states actions hrun
    · refine ⟨8, ?_⟩
      intro i hi
      rw [(hafter i hi).2]
      exact ⟨by decide, by simp⟩
    · intro i t n hphase
      by_cases hi : i ≤ 6
      · exact ⟨6, hi, hlist 6 (by decide)⟩
      · by_cases hseven : i = 7
        · subst hseven
          have hstep := hrun.step 6
          rw [hlist 6 (by decide)] at hstep
          rcases hstep.1 with ⟨t', n', hcalling⟩
          rw [hstep.2] at hphase
          simp [sampleActions, execute, scanStep, hcalling] at hphase
        · rw [(hafter i (by omega)).1, hvalues.1] at hphase
          cases hphase

/-- The timeout function of the first timer stops the second one, which is due at the
same tick and is the saved successor; its timeout function is called all the same. -/
theorem stopped_successor_is_called :
    ∃ s : ScanState Bool, (scanSystem defaultConfig).Reachable (fun _ _ => True) s ∧
      s.calledStopped = true := by
  have hfold : (([.start false, .start true, .tick, .begin, .next, .stop true, .finish,
      .next].foldlM (sampleStep fun _ _ => true) (sampleInit 1)).map
      fun s => s.calledStopped) = some true := by decide +kernel
  rcases Option.map_eq_some_iff.mp hfold with ⟨s, hs, hcalled⟩
  have hreach : (scanSystem defaultConfig).Reachable (fun _ _ => True) s := by
    apply TransitionSystem.Reachable.foldlM _ (.start (sampleInit_init 1)) hs
    exact sampleStep_sound fun _ _ _ => trivial
  exact ⟨s, hreach, hcalled⟩

end Scan
end RtThread.Timer
