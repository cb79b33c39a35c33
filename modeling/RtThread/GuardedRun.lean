import Mathlib.Tactic

/-!
# Runs of guarded transition systems

A transition system has initial states, actions and a step relation.  A guard
restricts which actions are taken in which states; the run lemma below turns a
property of the initial states that every guarded step keeps into a property of
every state such a run reaches.
-/

namespace RtThread

open Option

structure TransitionSystem (σ : Type*) (ι : Type*) where
  init : σ → Prop
  step : σ → ι → σ → Prop

namespace TransitionSystem

variable {σ ι : Type*} {sys : TransitionSystem σ ι} {guard : σ → ι → Prop}

/-- The states of the runs whose steps meet `guard`. -/
inductive Reachable (sys : TransitionSystem σ ι) (guard : σ → ι → Prop) : σ → Prop where
  | start {s : σ} (hinit : sys.init s) : Reachable sys guard s
  | next {s s' : σ} {action : ι} (hreach : Reachable sys guard s)
      (hguard : guard s action) (hstep : sys.step s action s') :
      Reachable sys guard s'

/-- What holds at the start and is kept by the allowed steps holds in every run. -/
theorem Reachable.invariant {P : σ → Prop} (hinit : ∀ s, sys.init s → P s)
    (hstep : ∀ s action s', P s → guard s action → sys.step s action s' → P s')
    {s : σ} (hreach : sys.Reachable guard s) : P s := by
  induction hreach with
  | start h => exact hinit _ h
  | next _ hguard hnext ih => exact hstep _ _ _ ih hguard hnext

theorem Reachable.mono {guard' : σ → ι → Prop} {s : σ} (hreach : sys.Reachable guard s)
    (himp : ∀ s action, guard s action → guard' s action) : sys.Reachable guard' s := by
  induction hreach with
  | start hinit => exact .start hinit
  | next _ hguard hstep ih => exact ih.next (himp _ _ hguard) hstep

/-- The end of a computed run is reachable. -/
theorem Reachable.foldlM {run : σ → ι → Option σ} (hrun : ∀ s action s', run s action = some s' →
      guard s action ∧ sys.step s action s') {actions : List ι} {s s' : σ}
    (hreach : sys.Reachable guard s)
    (hfold : actions.foldlM run s = some s') : sys.Reachable guard s' := by
  induction actions generalizing s with
  | nil =>
    rw [List.foldlM_nil] at hfold
    exact some.inj hfold ▸ hreach
  | cons action actions ih =>
    rw [List.foldlM_cons] at hfold
    rcases bind_eq_some_iff.mp hfold with ⟨next, hnext, hrest⟩
    rcases hrun s action next hnext with ⟨hguard, hstep⟩
    exact ih (.next hreach hguard hstep) hrest

def tryRun (test : σ → ι → Bool) (execute : σ → ι → σ) (actions : List ι) (s : σ) :
    Option σ :=
  actions.foldlM (fun s action => if test s action then some (execute s action) else none) s

theorem exists_tryRun {test : σ → ι → Bool} {execute : σ → ι → σ} {actions : List ι} {s : σ}
    {β : Type*} {view : σ → β} {value : β} (guard : σ → ι → Prop) (hinit : sys.init s)
    (hrun : (tryRun test execute actions s).map view = some value)
    (hsound : ∀ s action, test s action = true →
      guard s action ∧ sys.step s action (execute s action)) :
    ∃ s', sys.Reachable guard s' ∧ view s' = value := by
  obtain ⟨s', hlast, hvalue⟩ := map_eq_some_iff.mp hrun
  refine ⟨s', Reachable.foldlM ?_ (.start hinit) hlast, hvalue⟩
  intro s action s' hstep
  split_ifs at hstep with htest
  exact some.inj hstep ▸ hsound s action htest

structure Run (sys : TransitionSystem σ ι) (guard : σ → ι → Prop)
    (states : ℕ → σ) (actions : ℕ → ι) : Prop where
  start : sys.Reachable guard (states 0)
  guarded : ∀ i, guard (states i) (actions i)
  step : ∀ i, sys.step (states i) (actions i) (states (i + 1))

/-- All states of a run are reachable. -/
theorem Run.reachable {states : ℕ → σ} {actions : ℕ → ι}
    (hrun : Run sys guard states actions) (i : ℕ) : sys.Reachable guard (states i) := by
  induction i with
  | zero => exact hrun.start
  | succ i ih => exact ih.next (hrun.guarded i) (hrun.step i)

theorem Run.of_foldlM {run : σ → ι → Option σ} (hrun : ∀ s action s', run s action = some s' →
      guard s action ∧ sys.step s action s') (stutter : ι) {list : List ι} {s s' : σ}
    (hreach : sys.Reachable guard s) (hfold : list.foldlM run s = some s')
    (hguard : guard s' stutter) (hstep : sys.step s' stutter s') :
    ∃ states actions, Run sys guard states actions ∧ states 0 = s ∧
      (∀ i, list.length ≤ i → states i = s' ∧ actions i = stutter) ∧
      ∀ i (hi : i < list.length), actions i = list[i] := by
  induction list generalizing s with
  | nil =>
    rw [List.foldlM_nil] at hfold
    have heq := some.inj hfold
    subst heq
    exact ⟨fun _ => s, fun _ => stutter, ⟨hreach, fun _ => hguard, fun _ => hstep⟩,
      rfl, fun _ _ => ⟨rfl, rfl⟩, fun i hi => absurd hi (Nat.not_lt_zero i)⟩
  | cons action list ih =>
    rw [List.foldlM_cons] at hfold
    rcases bind_eq_some_iff.mp hfold with ⟨next, hnext, hrest⟩
    rcases hrun s action next hnext with ⟨hmet, htaken⟩
    rcases ih (.next hreach hmet htaken) hrest with ⟨states, actions, hgoes, hfirst, hafter, hlist⟩
    refine ⟨fun i => Nat.casesOn i s states, fun i => Nat.casesOn i action actions, ?_, rfl, ?_, ?_⟩
    · constructor
      · exact hreach
      · intro i
        cases i with
        | zero => exact hmet
        | succ i => exact hgoes.guarded i
      · intro i
        cases i with
        | zero =>
          change sys.step s action (states 0)
          rw [hfirst]
          exact htaken
        | succ i => exact hgoes.step i
    · intro i hi
      cases i with
      | zero => cases hi
      | succ i => exact hafter i (by simpa using hi)
    · intro i hi
      cases i with
      | zero => rfl
      | succ i => exact hlist i (by simpa using hi)

end TransitionSystem

theorem exists_lt_of_rising {f : ℕ → ℕ} {start : ℕ} (hmono : ∀ i, start ≤ i → f i ≤ f (i + 1))
    (hrising : ∀ i, start ≤ i → ∃ j, i ≤ j ∧ f j < f (j + 1))
    (bound : ℕ) : ∃ i, start ≤ i ∧ bound < f i := by
  have hle : ∀ i j, start ≤ i → i ≤ j → f i ≤ f j := by
    intro i j hi hij
    induction j, hij using Nat.le_induction with
    | base => exact le_rfl
    | succ j hj ih => exact ih.trans (hmono j (hi.trans hj))
  induction bound with
  | zero =>
    rcases hrising start le_rfl with ⟨j, hj, hlt⟩
    exact ⟨j + 1, by lia, by lia⟩
  | succ bound ih =>
    rcases ih with ⟨i, hi, hbound⟩
    rcases hrising i hi with ⟨j, hj, hlt⟩
    have hij := hle i j hi hj
    exact ⟨j + 1, by lia, by lia⟩

end RtThread
