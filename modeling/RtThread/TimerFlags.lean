import RtThread.TimerRows

/-!
# Activation flags and list membership

A timer is linked into its list from `rt_timer_start` to `rt_timer_stop` or to its
timeout, and `RT_TIMER_FLAG_ACTIVATED` is meant to say so.  While a timeout function
runs, its own timer is unlinked with the flag set, and the function may call any
of the timer services, also on that timer.
-/

namespace RtThread.Timer.Flags

open Word

variable {τ : Type} [DecidableEq τ] {cfg : SkipConfig} {t u : τ}

/-- Where `rt_timer_check` is: not running, in front of its loop test with the tick it
has read, or inside a timeout function. -/
inductive Phase (τ : Type) where
  | idle
  | checking (currentTick : ℕ)
  | calling (t : τ)
  deriving DecidableEq

/-- The timers and the check.  `detached` and `insertedLinked` are history: the timers
which have been detached or deleted, and whether a node has been linked into a list
while it was linked already. -/
structure FlagState (τ : Type) where
  core : TimerState τ
  phase : Phase τ
  detached : τ → Bool
  insertedLinked : Bool

/-- `check` enters `rt_timer_check`, `next` is one test of its loop, `finish` is what
follows a timeout function.  The other steps are taken by threads and interrupt
handlers and by timeout functions. -/
inductive Action (τ : Type) where
  | start (t : τ)
  | stop (t : τ)
  | control (t : τ) (command : TimerControl)
  | detach (t : τ)
  | tick
  | check
  | next
  | finish

def FlagState.Open (s : FlagState τ) : Prop :=
  s.phase = .idle ∨ ∃ t, s.phase = .calling t

def Action.Enabled (s : FlagState τ) : Action τ → Prop
  | .start t => s.Open ∧ s.detached t = false
  | .stop t => s.Open ∧ s.detached t = false
  | .control t _ => s.Open ∧ s.detached t = false
  | .detach t => s.Open ∧ s.detached t = false
  | .tick => s.Open
  | .check => s.phase = .idle
  | .next => ∃ currentTick, s.phase = .checking currentTick
  | .finish => ∃ t, s.phase = .calling t

def startLinks (s : TimerState τ) (t : τ) : Bool :=
  !(s.timers t).activated

def restarts (s : TimerState τ) (t : τ) : Bool :=
  (s.timers t).periodic && (s.timers t).activated

def execute (cfg : SkipConfig) (s : FlagState τ) : Action τ → FlagState τ
  | .start t =>
    { s with
      core := (rtTimerStart cfg s.core t).getD s.core
      insertedLinked := s.insertedLinked || (startLinks s.core t && decide (Linked cfg s.core t)) }
  | .stop t => { s with core := (rtTimerStop s.core t).getD s.core }
  | .control t command => { s with core := rtTimerControl s.core t command }
  | .detach t =>
    { s with core := rtTimerRemove s.core t, detached := Function.update s.detached t true }
  | .tick => { s with core := { s.core with tick := add32 s.core.tick 1 } }
  | .check => { s with phase := .checking s.core.tick }
  | .next =>
    match s.phase with
    | .checking currentTick =>
      match expiredHead cfg s.core currentTick with
      | some t => { s with core := rtTimerRemove s.core t, phase := .calling t }
      | none => { s with phase := .idle }
    | _ => s
  | .finish =>
    match s.phase with
    | .calling t =>
      { s with
        core := afterTimeout cfg s.core t
        phase := .checking s.core.tick
        insertedLinked := s.insertedLinked || (restarts s.core t && decide (Linked cfg s.core t)) }
    | _ => s

def flagSystem (cfg : SkipConfig) : TransitionSystem (FlagState τ) (Action τ) where
  init s := s.phase = .idle ∧ (∀ t, s.detached t = false) ∧ s.insertedLinked = false ∧
      (∀ t, (s.core.timers t).activated = false) ∧ ∀ k r, s.core.lists k r = []
  step s action s' := action.Enabled s ∧ s' = execute cfg s action

/-- Outside the timeout functions exactly the activated timers are linked, and no node
has been linked twice. -/
structure FlagsAgree (cfg : SkipConfig) (s : FlagState τ) : Prop where
  linked_iff : (∀ t, s.phase ≠ .calling t) → ∀ t, s.detached t = false →
    (Linked cfg s.core t ↔ (s.core.timers t).activated = true)
  insertsUnlinked : s.insertedLinked = false

def ReturnsUnlinked (cfg : SkipConfig) (s : FlagState τ) : Action τ → Prop
  | .finish => ∀ t, s.phase = .calling t → ¬Linked cfg s.core t
  | _ => True

/-- Flag and linkage agree but for detached timers and the one being called. -/
structure FlagsInv (cfg : SkipConfig) (s : FlagState τ) : Prop where
  rows : RowsInv cfg s.core
  agree : ∀ t, s.phase ≠ .calling t → s.detached t = false →
    (Linked cfg s.core t ↔ (s.core.timers t).activated = true)
  attached : ∀ t, s.phase = .calling t → Linked cfg s.core t → s.detached t = false
  distinct : s.insertedLinked = false

namespace FlagsInv

variable {s : FlagState τ}

omit [DecidableEq τ] in
theorem flagsAgree (hinv : FlagsInv cfg s) : FlagsAgree cfg s :=
  ⟨fun hphase t hattached => hinv.agree t (hphase t) hattached, hinv.distinct⟩

section

variable (hinv : FlagsInv cfg s)
include hinv

theorem start (hattached : s.detached t = false) : FlagsInv cfg (execute cfg s (.start t)) := by
  cases hactive : (s.core.timers t).activated with
  | true =>
    have heq : execute cfg s (.start t) = s := by
      simp [execute, rtTimerStart_of_active hactive, startLinks, hactive]
    rw [heq]
    exact hinv
  | false =>
    rcases rtTimerStart_of_inactive cfg hactive with ⟨core, hcore⟩
    rcases rtTimerStart_eq_some hcore with ⟨-, -, htimers, -⟩
    have hnot : ¬Linked cfg s.core t := by
      intro hlinked
      have hcontra := hinv.rows.activated_of_linked hlinked
      rw [hactive] at hcontra
      exact Bool.false_ne_true hcontra
    have heq : execute cfg s (.start t) = { s with core := core } := by
      simp [execute, hcore, hnot]
    rw [heq]
    refine ⟨hinv.rows.rtTimerStart hcore, ?_, ?_, hinv.distinct⟩
    · intro u hphase hu
      rw [hinv.rows.linked_rtTimerStart hcore, htimers]
      by_cases hut : u = t
      · simp [hut, startedTimer]
      · simpa [hut] using hinv.agree u hphase hu
    · intro u hphase hu
      rcases (hinv.rows.linked_rtTimerStart hcore).mp hu with rfl | hold
      · exact hattached
      · exact hinv.attached u hphase hold

theorem stop : FlagsInv cfg (execute cfg s (.stop t)) := by
  cases hactive : (s.core.timers t).activated with
  | false =>
    have heq : execute cfg s (.stop t) = s := by
      simp [execute, rtTimerStop, hactive]
    rw [heq]
    exact hinv
  | true =>
    have hstop : rtTimerStop s.core t =
        some (setActivated (rtTimerRemove s.core t) t false) := if_pos hactive
    have heq : execute cfg s (.stop t) =
        { s with core := setActivated (rtTimerRemove s.core t) t false } := by
      simp [execute, hstop]
    have hlinked : ∀ u, Linked cfg (setActivated (rtTimerRemove s.core t) t false) u ↔
        u ≠ t ∧ Linked cfg s.core u := fun u => hinv.rows.linked_rtTimerRemove
    rw [heq]
    refine ⟨hinv.rows.rtTimerStop hstop, ?_, ?_, hinv.distinct⟩
    · intro u hphase hu
      rw [hlinked]
      by_cases hut : u = t
      · simp [hut]
      · simpa [hut] using hinv.agree u hphase hu
    · intro u hphase hu
      exact hinv.attached u hphase ((hlinked u).mp hu).2

theorem control (command : TimerControl) : FlagsInv cfg (execute cfg s (.control t command)) := by
  have hlinked : ∀ u, Linked cfg (rtTimerControl s.core t command) u ↔ Linked cfg s.core u := by
    intro u
    cases command <;> rfl
  have hactive : ∀ u, ((rtTimerControl s.core t command).timers u).activated =
      (s.core.timers u).activated := by
    intro u
    by_cases hut : u = t
    · subst hut
      cases command <;> simp [rtTimerControl]
    · cases command <;> simp [rtTimerControl, hut]
  refine ⟨hinv.rows.rtTimerControl t command, ?_, ?_, hinv.distinct⟩
  · intro u hphase hu
    exact (hlinked u).trans ((hactive u).symm ▸ hinv.agree u hphase hu)
  · intro u hphase hu
    exact hinv.attached u hphase ((hlinked u).mp hu)

theorem detach : FlagsInv cfg (execute cfg s (.detach t)) := by
  refine ⟨hinv.rows.rtTimerRemove t, ?_, ?_, hinv.distinct⟩
  · intro u hphase hu
    have hne : u ≠ t := by
      rintro rfl
      simp [execute] at hu
    have hattached : s.detached u = false := by
      simpa [execute, hne] using hu
    have hagree := hinv.agree u hphase hattached
    exact hinv.rows.linked_rtTimerRemove.trans (by simpa [execute, hne] using hagree)
  · intro u hphase hu
    rcases hinv.rows.linked_rtTimerRemove.mp hu with ⟨hne, hold⟩
    simpa [execute, hne] using hinv.attached u hphase hold

theorem next : FlagsInv cfg (execute cfg s .next) := by
  cases hphase : s.phase with
  | idle | calling t =>
    rw [show execute cfg s .next = s by simp [execute, hphase]]
    exact hinv
  | checking currentTick =>
    have hall : ∀ u, s.phase ≠ .calling u := by simp [hphase]
    cases hhead : expiredHead cfg s.core currentTick with
    | none =>
      rw [show execute cfg s .next = { s with phase := .idle } by
        simp [execute, hphase, hhead]]
      exact ⟨hinv.rows, fun u _ hu => hinv.agree u (hall u) hu, by simp, hinv.distinct⟩
    | some t =>
      rw [show execute cfg s .next =
        { s with core := rtTimerRemove s.core t, phase := .calling t } by
          simp [execute, hphase, hhead]]
      refine ⟨hinv.rows.rtTimerRemove t, ?_, ?_, hinv.distinct⟩
      · intro u hcalling hu
        have hne : u ≠ t := by
          rintro rfl
          exact hcalling rfl
        exact hinv.rows.linked_rtTimerRemove.trans (by simpa [hne] using hinv.agree u (hall u) hu)
      · intro u hcalling hu
        rw [Phase.calling.injEq] at hcalling
        exact absurd hcalling.symm (hinv.rows.linked_rtTimerRemove.mp hu).1

theorem finish (hphase : s.phase = .calling t)
    (hunlinked : ¬Linked cfg s.core t) : FlagsInv cfg (execute cfg s .finish) := by
  rcases hinv.rows.afterTimeout hunlinked with ⟨hrows, hlinked, hother, hself⟩
  have heq : execute cfg s .finish =
      { s with core := afterTimeout cfg s.core t, phase := .checking s.core.tick } := by
    simp [execute, hphase, hunlinked]
  rw [heq]
  refine ⟨hrows, ?_, by simp, hinv.distinct⟩
  intro u _ hu
  rw [hlinked]
  by_cases hut : u = t
  · subst hut
    rw [hself]
    simp [hunlinked]
  · rw [hother u hut]
    have hagree := hinv.agree u (by simp [hphase, Ne.symm hut]) hu
    simpa [hut] using hagree

theorem not_flagsAgree_of_linked (hphase : s.phase = .calling t)
    (hlinked : Linked cfg s.core t) : ¬FlagsAgree cfg (execute cfg s .finish) := by
  intro hagree
  have hactive := hinv.rows.activated_of_linked hlinked
  cases hperiodic : (s.core.timers t).periodic with
  | true =>
    have htwice := hagree.insertsUnlinked
    simp [execute, hphase, restarts, hperiodic, hactive, hlinked] at htwice
  | false =>
    have hafter : afterTimeout cfg s.core t = setActivated s.core t false := by
      simp [afterTimeout, hperiodic]
    have hiff := hagree.linked_iff (by simp [execute, hphase]) t
      (by simpa [execute, hphase] using hinv.attached t hphase hlinked)
    have hstill : Linked cfg (execute cfg s .finish).core t := by
      simpa [execute, hphase, hafter] using hlinked
    have hflag := hiff.mp hstill
    simp [execute, hphase, hafter] at hflag

/-- Flag and linkage part exactly when a timer returns linked from its timeout function. -/
theorem execute_iff {action : Action τ} (henabled : action.Enabled s) :
    (ReturnsUnlinked cfg s action → FlagsInv cfg (execute cfg s action)) ∧
      (FlagsAgree cfg (execute cfg s action) → ReturnsUnlinked cfg s action) := by
  cases action with
  | start t => exact ⟨fun _ => hinv.start henabled.2, fun _ => trivial⟩
  | stop t => exact ⟨fun _ => hinv.stop, fun _ => trivial⟩
  | control t command => exact ⟨fun _ => hinv.control command, fun _ => trivial⟩
  | detach t => exact ⟨fun _ => hinv.detach, fun _ => trivial⟩
  | tick =>
    refine ⟨fun _ => ?_, fun _ => trivial⟩
    exact ⟨hinv.rows.of_timers rfl (fun _ _ _ => ⟨rfl, rfl, rfl⟩), hinv.agree,
      hinv.attached, hinv.distinct⟩
  | check =>
    refine ⟨fun _ => ?_, fun _ => trivial⟩
    have hidle : s.phase = .idle := henabled
    exact ⟨hinv.rows, fun u _ hu => hinv.agree u (by simp [hidle]) hu, by simp [execute],
      hinv.distinct⟩
  | next => exact ⟨fun _ => hinv.next, fun _ => trivial⟩
  | finish =>
    rcases henabled with ⟨t, hphase⟩
    constructor
    · intro hguard
      exact hinv.finish hphase (hguard t hphase)
    · intro hagree u hu hlinked
      exact hinv.not_flagsAgree_of_linked hu hlinked hagree

end

theorem of_init (hinit : (flagSystem cfg).init s) : FlagsInv cfg s := by
  rcases hinit with ⟨hphase, -, hdistinct, hinactive, hlists⟩
  have hnone : ∀ t, ¬Linked cfg s.core t := by
    rintro t ⟨k, hk⟩
    rw [TimerState.bottom, hlists] at hk
    cases hk
  refine ⟨RowsInv.of_empty hlists, ?_, ?_, hdistinct⟩
  · intro t _ _
    simp [hnone t, hinactive t]
  · intro t hcalling
    rw [hphase] at hcalling
    cases hcalling

end FlagsInv

/-- In every run in which no timeout function returns with its own timer linked, the
flags agree with the lists.  A step which breaks the condition ends the agreement. -/
theorem flagsAgree_of_returnsUnlinked (cfg : SkipConfig) (s : FlagState τ)
    (hreach : (flagSystem cfg).Reachable (ReturnsUnlinked cfg) s) : FlagsAgree cfg s ∧
      ∀ action s', (flagSystem cfg).step s action s' →
        (FlagsAgree cfg s' ↔ ReturnsUnlinked cfg s action) := by
  have hinv : FlagsInv cfg s := by
    apply hreach.invariant
    · intro s hinit
      exact FlagsInv.of_init hinit
    · rintro s action s' hinv hguard ⟨henabled, rfl⟩
      exact (hinv.execute_iff henabled).1 hguard
  refine ⟨hinv.flagsAgree, ?_⟩
  rintro action s' ⟨henabled, rfl⟩
  have hstep := hinv.execute_iff henabled
  exact ⟨hstep.2, fun hguard => (hstep.1 hguard).flagsAgree⟩

instance (s : FlagState Bool) : Decidable s.Open :=
  match hphase : s.phase with
  | .idle => isTrue (.inl hphase)
  | .checking _ => isFalse (by simp [FlagState.Open, hphase])
  | .calling t => isTrue (.inr ⟨t, hphase⟩)

def sampleInit : FlagState Bool :=
  ⟨⟨4294967295, 0, fun t => ⟨0, 1, t, false, false⟩, fun _ _ => []⟩, .idle, fun _ => false, false⟩

def enabledTest (s : FlagState Bool) : Action Bool → Bool
  | .start t => decide s.Open && !s.detached t
  | .stop t => decide s.Open && !s.detached t
  | .control t _ => decide s.Open && !s.detached t
  | .detach t => decide s.Open && !s.detached t
  | .tick => decide s.Open
  | .check => decide (s.phase = .idle)
  | .next => match s.phase with
      | .checking _ => true
      | _ => false
  | .finish => match s.phase with
      | .calling _ => true
      | _ => false

theorem enabled_of_enabledTest {s : FlagState Bool} {action : Action Bool}
    (htest : enabledTest s action = true) : action.Enabled s := by
  cases action with
  | start t | stop t | control t command | detach t | tick | check =>
    simpa [enabledTest, Action.Enabled] using htest
  | next =>
    cases hphase : s.phase with
    | checking currentTick => exact ⟨currentTick, hphase⟩
    | idle | calling t => simp [enabledTest, hphase] at htest
  | finish =>
    cases hphase : s.phase with
    | calling t => exact ⟨t, hphase⟩
    | idle | checking currentTick => simp [enabledTest, hphase] at htest

instance (s : FlagState Bool) (action : Action Bool) :
    Decidable (ReturnsUnlinked defaultConfig s action) :=
  match action with
  | .finish => inferInstanceAs
      (Decidable (∀ t, s.phase = .calling t → ¬Linked defaultConfig s.core t))
  | .start _ => isTrue trivial
  | .stop _ => isTrue trivial
  | .control _ _ => isTrue trivial
  | .detach _ => isTrue trivial
  | .tick => isTrue trivial
  | .check => isTrue trivial
  | .next => isTrue trivial

def sampleRun (guard : FlagState Bool → Action Bool → Prop) [∀ s action, Decidable (guard s action)]
    (actions : List (Action Bool)) : Option (FlagState Bool) :=
  actions.foldlM
    (fun s action =>
      if enabledTest s action = true ∧ guard s action then some (execute defaultConfig s action)
      else none)
    sampleInit

theorem reachable_sampleRun {guard : FlagState Bool → Action Bool → Prop}
    [∀ s action, Decidable (guard s action)] {actions : List (Action Bool)} {s : FlagState Bool}
    (hrun : sampleRun guard actions = some s) : (flagSystem defaultConfig).Reachable guard s := by
  have hstart : (flagSystem defaultConfig).init sampleInit :=
    ⟨rfl, fun _ => rfl, rfl, fun _ => rfl, fun _ _ => rfl⟩
  apply TransitionSystem.Reachable.foldlM _ (.start hstart) hrun
  intro s action s' hstep
  split_ifs at hstep with hmet
  rw [Option.some.injEq] at hstep
  exact ⟨hmet.2, enabled_of_enabledTest hmet.1, hstep.symm⟩

theorem flagsAgree_in_sample : ∃ s : FlagState Bool,
      (flagSystem defaultConfig).Reachable (ReturnsUnlinked defaultConfig) s ∧
        s.core.bottom defaultConfig .hard = [false] ∧ FlagsAgree defaultConfig s := by
  have hrun : (sampleRun (ReturnsUnlinked defaultConfig)
      [.start true, .tick, .check, .next, .start false, .stop true, .finish, .next]).map
      (fun s => s.core.bottom defaultConfig .hard) = some [false] := by decide +kernel
  rcases Option.map_eq_some_iff.mp hrun with ⟨s, hs, hrow⟩
  have hreach := reachable_sampleRun hs
  exact ⟨s, hreach, hrow, (flagsAgree_of_returnsUnlinked _ s hreach).1⟩

/-- The timeout function of a periodic timer stops and starts its own timer;
`rt_timer_check` then links the timer a second time. -/
theorem restart_links_twice :
    ∃ s : FlagState Bool, (flagSystem defaultConfig).Reachable (fun _ _ => True) s ∧
      s.insertedLinked = true ∧ ¬FlagsAgree defaultConfig s := by
  have hrun : (sampleRun (fun _ _ => True)
      [.start true, .tick, .check, .next, .stop true, .start true, .finish]).map
      (fun s => s.insertedLinked) = some true := by decide +kernel
  rcases Option.map_eq_some_iff.mp hrun with ⟨s, hs, htwice⟩
  refine ⟨s, reachable_sampleRun hs, htwice, ?_⟩
  intro hagree
  rw [hagree.insertsUnlinked] at htwice
  exact Bool.false_ne_true htwice

end RtThread.Timer.Flags
