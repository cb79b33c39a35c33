import RtThread.MutexRuns
import RtThread.SemaphoreRuns

/-!
# How far the counters of mutexes and semaphores reach

`hold` of a mutex has eight bits and `value` of a semaphore has sixteen; both are
counted up without a check.  The runs of the mutexes are followed together with
the true number of takes and releases of each thread.
-/

namespace RtThread

open Option
namespace Mutex

open Function Ipc

variable {κ : Type} [DecidableEq κ]

structure CountedState (κ : Type) where
  state : MutexState κ
  taken : Thread → κ → ℕ
  released : Thread → κ → ℕ

def bump (count : Thread → κ → ℕ) (t : Thread) (m : κ) : Thread → κ → ℕ :=
  fun u n => if u = t ∧ n = m then count u n + 1 else count u n

def CountedState.next (c : CountedState κ) (s' : MutexState κ) : Action κ → CountedState κ
  | .take t m _ =>
    ⟨s', if (s'.mutexes m).owner = some t then bump c.taken t m else c.taken, c.released⟩
  | .release t m =>
    if (c.state.mutexes m).owner = some t then
      ⟨s', match (s'.mutexes m).owner with
        | some u => if u = t then c.taken else bump c.taken u m
        | none => c.taken, bump c.released t m⟩
    else ⟨s', c.taken, c.released⟩
  | .timeout _ => ⟨s', c.taken, c.released⟩

def countedSystem (flags : κ → IpcFlag) (initPriority : Thread → ℕ) :
    TransitionSystem (CountedState κ) (Action κ) where
  init c := (mutexSystem flags initPriority).init c.state ∧
      (∀ t m, c.taken t m = 0) ∧ ∀ t m, c.released t m = 0
  step c action c' := action.Enabled c.state ∧
      ∃ s', execute c.state action = some s' ∧ c' = c.next s' action

/-- Who took a mutex more often than he released it is its owner. -/
def KeepsOwner (c : CountedState κ) : Prop :=
  ∀ t m, c.released t m < c.taken t m → (c.state.mutexes m).owner = some t

def NoWrappedRelease (c : CountedState κ) : Action κ → Prop
  | .release t m =>
    (c.state.mutexes m).owner = some t →
      (c.taken t m - c.released t m) % 256 = 1 → c.taken t m = c.released t m + 1
  | _ => True

variable {c c' : CountedState κ} {s' : MutexState κ} {action : Action κ}
  {t u : Thread} {m n : κ} {count : Thread → κ → ℕ}

theorem bump_self : bump count t m t m = count t m + 1 := by
  simp [bump]

theorem bump_of_ne (hne : ¬(u = t ∧ n = m)) : bump count t m u n = count u n := by
  simp [bump, hne]

section Next

variable {time : ℤ}

theorem next_take_of_owner (hafter : (s'.mutexes m).owner = some t) :
    c.next s' (.take t m time) = ⟨s', bump c.taken t m, c.released⟩ := by
  simp [CountedState.next, hafter]

theorem next_take_of_other (hafter : (s'.mutexes m).owner ≠ some t) :
    c.next s' (.take t m time) = ⟨s', c.taken, c.released⟩ := by
  simp [CountedState.next, hafter]

theorem next_release_of_foreign (howner : (c.state.mutexes m).owner ≠ some t) :
    c.next s' (.release t m) = ⟨s', c.taken, c.released⟩ := by
  simp [CountedState.next, howner]

section

variable (howner : (c.state.mutexes m).owner = some t)
include howner

theorem next_release_of_kept (hafter : (s'.mutexes m).owner = some t) :
    c.next s' (.release t m) = ⟨s', c.taken, bump c.released t m⟩ := by
  simp [CountedState.next, howner, hafter]

theorem next_release_of_passed (hafter : (s'.mutexes m).owner = some u) (hut : u ≠ t) :
    c.next s' (.release t m) = ⟨s', bump c.taken u m, bump c.released t m⟩ := by
  simp [CountedState.next, howner, hafter, hut]

theorem next_release_of_free (hafter : (s'.mutexes m).owner = none) :
    c.next s' (.release t m) = ⟨s', c.taken, bump c.released t m⟩ := by
  simp [CountedState.next, howner, hafter]

end

end Next

/-- The hold count is what the owner has taken and not released, modulo 256. -/
structure CountInv (c : CountedState κ) : Prop where
  inv : MutexInv c.state
  idle : ∀ t m, (c.state.mutexes m).owner ≠ some t → c.taken t m = c.released t m
  holding : ∀ t m, (c.state.mutexes m).owner = some t → c.released t m < c.taken t m ∧
      (c.state.mutexes m).hold = (c.taken t m - c.released t m) % 256

namespace CountInv

omit [DecidableEq κ] in
theorem keepsOwner (hinv : CountInv c) : KeepsOwner c := by
  intro t m hlt
  by_contra hne
  have heq := hinv.idle t m hne
  omega

theorem of_update {core : Core κ} {mutex : RtMutex} {taken released : Thread → κ → ℕ}
    (hinv : CountInv c) (hstate : MutexInv ⟨core, update c.state.mutexes m mutex⟩)
    (hother : ∀ u n, n ≠ m → taken u n = c.taken u n ∧ released u n = c.released u n)
    (hidle : ∀ u, mutex.owner ≠ some u → taken u m = released u m)
    (hholding : ∀ u, mutex.owner = some u →
      released u m < taken u m ∧ mutex.hold = (taken u m - released u m) % 256) :
    CountInv ⟨⟨core, update c.state.mutexes m mutex⟩, taken, released⟩ := by
  refine ⟨hstate, ?_, ?_⟩
  · intro u n hne
    by_cases hnm : n = m
    · subst hnm
      simp only [update_self] at hne
      exact hidle u hne
    · simp only [update_of_ne hnm] at hne
      change taken u n = released u n
      rw [(hother u n hnm).1, (hother u n hnm).2]
      exact hinv.idle u n hne
  · intro u n howner
    by_cases hnm : n = m
    · subst hnm
      simp only [update_self] at howner ⊢
      exact hholding u howner
    · simp only [update_of_ne hnm] at howner ⊢
      rw [(hother u n hnm).1, (hother u n hnm).2]
      exact hinv.holding u n howner

omit [DecidableEq κ] in
theorem of_core {core : Core κ} (hinv : CountInv c) (hstate : MutexInv ⟨core, c.state.mutexes⟩) :
    CountInv ⟨⟨core, c.state.mutexes⟩, c.taken, c.released⟩ :=
  ⟨hstate, hinv.idle, hinv.holding⟩

omit [DecidableEq κ] in
theorem last_release (hinv : CountInv c) (howner : (c.state.mutexes m).owner = some t)
    (hhold : ((c.state.mutexes m).hold + 255) % 256 = 0)
    (hguard : NoWrappedRelease c (.release t m)) : c.taken t m = c.released t m + 1 := by
  have hcount := (hinv.holding t m howner).2
  apply hguard howner
  omega

theorem of_effect (hinv : CountInv c) (heffect : Effect c.state action s')
    (hguard : NoWrappedRelease c action) : CountInv (c.next s' action) := by
  have hstate := hinv.inv.of_effect heffect
  cases heffect with
  | @recursive t m time howner =>
    rcases hinv.holding t m howner with ⟨hlt, hhold⟩
    rw [next_take_of_owner (by simp [howner])]
    apply hinv.of_update hstate
    · exact fun u n hnm => ⟨bump_of_ne (fun h => hnm h.2), rfl⟩
    · intro u hne
      have hut : ¬(u = t ∧ m = m) := fun h => hne (h.1 ▸ howner)
      rw [bump_of_ne hut]
      exact hinv.idle u m hne
    · intro u hu
      rw [howner] at hu
      rw [← some.inj hu, bump_self]
      lia
  | @acquire t m time howner =>
    have hfree := (hinv.inv.free m howner).2.2
    rw [next_take_of_owner (by simp)]
    apply hinv.of_update hstate
    · exact fun u n hnm => ⟨bump_of_ne (fun h => hnm h.2), rfl⟩
    · intro u hne
      have hut : ¬(u = t ∧ m = m) := fun h => hne (h.1 ▸ rfl)
      rw [bump_of_ne hut]
      exact hinv.idle u m (by simp [howner])
    · intro u hu
      have hidle := hinv.idle t m (by simp [howner])
      rw [← some.inj hu, bump_self]
      lia
  | @refuse t o m time howner hne htime | @block t o m time hready howner hne htime =>
    have hnot : ¬(c.state.mutexes m).owner = some t := by
      rw [howner]
      exact fun h => hne (some.inj h)
    rw [next_take_of_other]
    · exact hinv.of_core hstate
    · exact hnot
  | @foreign t m howner =>
    rw [next_release_of_foreign howner]
    exact hinv.of_core hstate
  | @unnest t m howner hhold =>
    rcases hinv.holding t m howner with ⟨hlt, hcount⟩
    rw [next_release_of_kept howner (by simp [howner])]
    apply hinv.of_update hstate
    · exact fun u n hnm => ⟨rfl, bump_of_ne (fun h => hnm h.2)⟩
    · intro u hne
      have hut : ¬(u = t ∧ m = m) := fun h => hne (h.1 ▸ howner)
      rw [bump_of_ne hut]
      exact hinv.idle u m hne
    · intro u hu
      rw [howner] at hu
      rw [← some.inj hu, bump_self]
      lia
  | @handOver t u m rest code howner hhold hlist =>
    have hlast := hinv.last_release howner hhold hguard
    have hut : u ≠ t := by
      rintro rfl
      exact (hinv.inv.owned m u howner).2 (by simp [hlist])
    have hidle : ∀ v, v ≠ t → c.taken v m = c.released v m := by
      intro v hvt
      apply hinv.idle v m
      rw [howner]
      exact fun h => hvt (some.inj h).symm
    rw [next_release_of_passed howner (by simp) hut]
    apply hinv.of_update hstate
    · exact fun v n hnm =>
        ⟨bump_of_ne (fun h => hnm h.2), bump_of_ne (fun h => hnm h.2)⟩
    · intro v hne
      have hvu : ¬(v = u ∧ m = m) := fun h => hne (h.1 ▸ rfl)
      rw [bump_of_ne hvu]
      by_cases hvt : v = t
      · rw [hvt, bump_self]
        exact hlast
      · rw [bump_of_ne (fun h => hvt h.1)]
        exact hidle v hvt
    · intro v hv
      rw [← some.inj hv, bump_self, bump_of_ne (fun h => hut h.1), hidle u hut]
      simp
  | @giveBack t m howner hhold hlist =>
    have hlast := hinv.last_release howner hhold hguard
    rw [next_release_of_free howner (by simp)]
    apply hinv.of_update hstate
    · exact fun u n hnm => ⟨rfl, bump_of_ne (fun h => hnm h.2)⟩
    · intro u _
      by_cases hut : u = t
      · rw [hut, bump_self]
        exact hlast
      · rw [bump_of_ne (fun h => hut h.1)]
        apply hinv.idle u m
        rw [howner]
        exact fun h => hut (some.inj h).symm
    · exact fun u hu => absurd hu (by simp)
  | timeout => exact hinv.of_core hstate

theorem of_reachable {flags : κ → IpcFlag} {initPriority : Thread → ℕ}
    (hreach : (countedSystem flags initPriority).Reachable NoWrappedRelease c) :
    CountInv c := by
  apply hreach.invariant (P := fun c => CountInv c)
  · rintro c ⟨hinit, htaken, hreleased⟩
    refine ⟨MutexInv.of_init hinit, ?_, ?_⟩
    · intro t m _
      rw [htaken, hreleased]
    · intro t m howner
      rw [hinit.2.2 m] at howner
      exact absurd howner (by simp [rtMutexInit])
  · rintro c action c' hinv hguard ⟨henabled, s', hexecute, rfl⟩
    exact hinv.of_effect (hinv.inv.effect henabled hexecute) hguard

theorem keepsOwner_release_iff (hinv : CountInv c) (t : Thread) (m : κ) :
    KeepsOwner (c.next (rtMutexRelease c.state m t) (.release t m)) ↔
      NoWrappedRelease c (.release t m) := by
  have heffect := hinv.inv.rtMutexRelease_effect m t
  constructor
  · intro hkeeps howner hone
    have hcount := (hinv.holding t m howner).2
    by_contra hne
    generalize rtMutexRelease c.state m t = s' at heffect hkeeps
    cases heffect with
    | foreign hforeign => exact hforeign howner
    | unnest _ hhold => lia
    | @handOver _ u _ _ _ _ hhold hlist =>
      have hut : u ≠ t := by
        rintro rfl
        exact (hinv.inv.owned m u howner).2 (by simp [hlist])
      rw [next_release_of_passed howner (by simp) hut] at hkeeps
      have hlost := hkeeps t m
      simp only [update_self, bump_self,
        bump_of_ne (fun h : t = u ∧ m = m => hut h.1.symm)] at hlost
      exact hut (some.inj (hlost (by lia)))
    | giveBack _ hhold hlist =>
      rw [next_release_of_free howner (by simp)] at hkeeps
      have hlost := hkeeps t m
      simp only [update_self, bump_self] at hlost
      nomatch hlost (by lia)
  · exact fun hguard => (hinv.of_effect heffect hguard).keepsOwner

end CountInv
end Mutex

namespace Semaphore

open Function Ipc

variable {flag : IpcFlag} {s s' : SemState}

def takeAll (flag : IpcFlag) (takes : List (Option Thread × ℤ)) (s : SemState) :
    Option SemState :=
  takes.foldlM (fun s take => rtSemTake flag s take.1 take.2) s

theorem takeAll_of_le {takes : List (Option Thread × ℤ)} (hlength : takes.length ≤ s.value) :
    takeAll flag takes s = some
      { s with
        value := s.value - takes.length
        okReturns := s.okReturns + takes.length } := by
  induction takes generalizing s with
  | nil => rfl
  | cons take takes ih =>
    rw [List.length_cons] at hlength
    have hpos : 0 < s.value := by lia
    have hfirst : rtSemTake flag s take.1 take.2 =
        some { s with value := s.value - 1, okReturns := s.okReturns + 1 } := by
      unfold rtSemTake
      rw [if_pos hpos]
    have hrest := ih (s := { s with value := s.value - 1, okReturns := s.okReturns + 1 })
      (by simp only; lia)
    unfold takeAll at hrest ⊢
    rw [List.foldlM_cons, hfirst, bind_eq_bind, bind_some, hrest, List.length_cons]
    lia

theorem okReturns_takeAll_le {n : ℕ}
    (htakes : takeAll flag (List.replicate n (none, 0)) s = some s') :
    s'.okReturns ≤ s.okReturns + s.value := by
  induction n generalizing s with
  | zero =>
    rw [← some.inj htakes]
    omega
  | succ n ih =>
    rw [List.replicate_succ] at htakes
    unfold takeAll at htakes ih
    rw [List.foldlM_cons] at htakes
    unfold rtSemTake at htakes
    by_cases hpos : 0 < s.value
    · simp only [if_pos hpos, bind_eq_bind, bind_some] at htakes
      have hle := ih htakes
      simp only at hle
      omega
    · simp only [if_neg hpos, if_true, bind_eq_bind, bind_some] at htakes
      exact ih htakes

theorem rtSemRelease_iterate (hwait : s.core.wait () = []) (k : ℕ) :
    (rtSemRelease^[k] s).value % 65536 = (s.value + k) % 65536 ∧
      (0 < k → (rtSemRelease^[k] s).value < 65536) ∧
      (rtSemRelease^[k] s).okReturns = s.okReturns := by
  have hrelease : ∀ r : SemState, r.core.wait () = [] → rtSemRelease r =
      { r with value := (r.value + 1) % 65536, releases := r.releases + 1 } := by
    intro r hr
    unfold rtSemRelease
    rw [hr]
  have hstep : ∀ j, (rtSemRelease^[j] s).core.wait () = [] := by
    intro j
    induction j with
    | zero => exact hwait
    | succ j ih =>
      rw [iterate_succ_apply', hrelease _ ih]
      exact ih
  induction k with
  | zero => exact ⟨rfl, fun h => absurd h (lt_irrefl 0), rfl⟩
  | succ k ih =>
    rcases ih with ⟨hvalue, -, hok⟩
    rw [iterate_succ_apply', hrelease _ (hstep k)]
    refine ⟨?_, fun _ => Nat.mod_lt _ (by decide), hok⟩
    lia

/-- Releases are all taken back as long as the value has not wrapped around. -/
theorem takeAll_after_releases_iff {value : UInt32} (hinit : (semSystem flag value).init s)
    (k : ℕ) : (∀ takes, takes.length = value.toNat + k →
        ∃ s', takeAll flag takes (rtSemRelease^[k] s) = some s' ∧ s'.okReturns = value.toNat + k) ↔
      value.toNat + k < 65536 := by
  rcases hinit with ⟨hwait, -, hvalue, -, -, hok, -, -⟩
  rcases rtSemRelease_iterate hwait k with ⟨hmod, hlt, hok'⟩
  have hbound : (rtSemRelease^[k] s).value < 65536 := by
    rcases Nat.eq_zero_or_pos k with rfl | hpos
    · rw [iterate_zero_apply, hvalue]
      exact Nat.mod_lt _ (by decide)
    · exact hlt hpos
  constructor
  · intro htakes
    rcases htakes (List.replicate (value.toNat + k) (none, 0)) (by simp) with ⟨s', htake, hall⟩
    have hle := okReturns_takeAll_le htake
    lia
  · intro hfit takes hlength
    refine ⟨_, takeAll_of_le (by lia), ?_⟩
    lia

end Semaphore

open Mutex Semaphore Ipc

/-- A mutex stays with its owner until the last release unless a release is made
where `hold` has come round to one, and exactly these releases take it away; the
tokens of a semaphore are kept as long as they fit into sixteen bits. -/
theorem counters_keep_unless_wrapped {κ : Type} [DecidableEq κ] :
    (∀ (flags : κ → IpcFlag) (initPriority : Thread → ℕ) (c : CountedState κ),
      (countedSystem flags initPriority).Reachable NoWrappedRelease c → KeepsOwner c ∧
        ∀ t m, KeepsOwner (c.next (rtMutexRelease c.state m t) (.release t m)) ↔
          NoWrappedRelease c (.release t m)) ∧
    ∀ (flag : IpcFlag) (value : UInt32) (s : SemState), (semSystem flag value).init s → ∀ k : ℕ,
        (∀ takes, takes.length = value.toNat + k →
          ∃ s', takeAll flag takes (rtSemRelease^[k] s) = some s' ∧
            s'.okReturns = value.toNat + k) ↔ value.toNat + k < 65536 := by
  constructor
  · intro flags initPriority c hreach
    have hinv := CountInv.of_reachable hreach
    exact ⟨hinv.keepsOwner, hinv.keepsOwner_release_iff⟩
  · intro flag value s hinit k
    exact takeAll_after_releases_iff hinit k

instance {κ : Type} (c : CountedState κ) (action : Mutex.Action κ) :
    Decidable (NoWrappedRelease c action) :=
  match action with
  | .take _ _ _ => isTrue trivial
  | .release _ _ => inferInstanceAs (Decidable (_ → _))
  | .timeout _ => isTrue trivial

def sampleCountedRun (guard : CountedState Unit → Mutex.Action Unit → Prop)
    [∀ c action, Decidable (guard c action)]
    (actions : List (Mutex.Action Unit)) : Option (CountedState Unit) :=
  actions.foldlM
    (fun c action =>
      if guard c action ∧ action.Enabled c.state then
        (Mutex.execute c.state action).map (fun s' => c.next s' action)
      else none)
    ⟨Mutex.sampleInit (fun _ => .fifo) (fun _ => 10), fun _ _ => 0, fun _ _ => 0⟩

theorem reachable_sampleCountedRun {guard : CountedState Unit → Mutex.Action Unit → Prop}
    [∀ c action, Decidable (guard c action)]
    {actions : List (Mutex.Action Unit)} {c : CountedState Unit}
    (hrun : sampleCountedRun guard actions = some c) :
    (countedSystem (fun _ => .fifo) (fun _ => 10)).Reachable guard c := by
  have hstart : (countedSystem (fun _ : Unit => IpcFlag.fifo) (fun _ => 10)).init
      ⟨Mutex.sampleInit (fun _ => .fifo) (fun _ => 10), fun _ _ => 0, fun _ _ => 0⟩ :=
    ⟨⟨fun _ => rfl, fun _ => ⟨rfl, rfl, rfl⟩, fun _ => rfl⟩, fun _ _ => rfl, fun _ _ => rfl⟩
  apply TransitionSystem.Reachable.foldlM _ (.start hstart) hrun
  intro c action c' hstep
  split_ifs at hstep with hmet
  rcases map_eq_some_iff.mp hstep with ⟨s', hexecute, hnext⟩
  exact ⟨hmet.1, hmet.2, s', hexecute, hnext.symm⟩

theorem counters_keep_in_sample : (∃ c : CountedState Unit,
      (countedSystem (fun _ => .fifo) (fun _ => 10)).Reachable NoWrappedRelease c ∧
        c.taken ⟨1, by decide⟩ () = 2 ∧ c.released ⟨1, by decide⟩ () = 1 ∧ KeepsOwner c) ∧
      ∃ s', takeAll .fifo (List.replicate 8 (none, 0))
          (rtSemRelease^[5] (Semaphore.sampleInit 3)) = some s' ∧ s'.okReturns = 8 := by
  constructor
  · have hrun : (sampleCountedRun NoWrappedRelease
        [.take ⟨1, by decide⟩ () 0, .take ⟨1, by decide⟩ () 0, .release ⟨1, by decide⟩ ()]).map
          (fun c => (c.taken ⟨1, by decide⟩ (), c.released ⟨1, by decide⟩ ())) =
          some (2, 1) := by decide
    rcases map_eq_some_iff.mp hrun with ⟨c, hc, hcount⟩
    have hreach := reachable_sampleCountedRun hc
    exact ⟨c, hreach, (Prod.mk.inj hcount).1, (Prod.mk.inj hcount).2,
      (counters_keep_unless_wrapped.1 _ _ c hreach).1⟩
  · have hinit : (semSystem .fifo 3).init (Semaphore.sampleInit 3) :=
      ⟨rfl, fun _ => ⟨rfl, rfl, rfl⟩, rfl, rfl, rfl, rfl, rfl, rfl⟩
    exact ((counters_keep_unless_wrapped (κ := Unit)).2 .fifo 3 _ hinit 5).mpr (by decide) _ rfl

/-- A thread takes a mutex 257 times and loses it with the first release; a
semaphore with one token is released 65535 times and has none left. -/
theorem counters_wrap : (∃ c : CountedState Unit,
      (countedSystem (fun _ => .fifo) (fun _ => 10)).Reachable (fun _ _ => True) c ∧
        c.taken ⟨1, by decide⟩ () = 257 ∧ c.released ⟨1, by decide⟩ () = 1 ∧ ¬KeepsOwner c) ∧
      ¬∀ takes, takes.length = (1 : UInt32).toNat + 65535 →
        ∃ s', takeAll .fifo takes (rtSemRelease^[65535] (Semaphore.sampleInit 1)) = some s' ∧
          s'.okReturns = (1 : UInt32).toNat + 65535 := by
  constructor
  · have hrun : (sampleCountedRun (fun _ _ => True)
        (List.replicate 257 (.take ⟨1, by decide⟩ () 0) ++ [.release ⟨1, by decide⟩ ()])).map
          (fun c => (c.taken ⟨1, by decide⟩ (), c.released ⟨1, by decide⟩ (),
            (c.state.mutexes ()).owner)) = some (257, 1, none) := by decide +kernel
    rcases map_eq_some_iff.mp hrun with ⟨c, hc, hcount⟩
    simp only [Prod.mk.injEq] at hcount
    rcases hcount with ⟨htaken, hreleased, howner⟩
    refine ⟨c, reachable_sampleCountedRun hc, htaken, hreleased, ?_⟩
    intro hkeeps
    have hlost := hkeeps ⟨1, by decide⟩ () (by rw [htaken, hreleased]; decide)
    rw [howner] at hlost
    cases hlost
  · have hinit : (semSystem .fifo 1).init (Semaphore.sampleInit 1) :=
      ⟨rfl, fun _ => ⟨rfl, rfl, rfl⟩, rfl, rfl, rfl, rfl, rfl, rfl⟩
    rw [takeAll_after_releases_iff hinit]
    decide

end RtThread
