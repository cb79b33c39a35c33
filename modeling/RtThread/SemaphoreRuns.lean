import RtThread.IpcModel
import RtThread.GuardedRun

/-!
# Semaphores

A token is handed to a waiting thread by making the thread ready; `value` is not
touched then.  The runs below contain every order of takes, releases, timeouts
and resets of one semaphore, and the state keeps count of them.
-/

namespace RtThread.Semaphore

open Function List Option Ipc

/-- A semaphore and its threads.  `inTake` holds for the threads which are behind
`rt_schedule()` in `rt_sem_take`.  The other members are history: the start value
and the releases and successful takes since then, the threads resumed by a
release which have not returned yet, and those resumed before the last reset. -/
structure SemState where
  core : Core Unit
  value : ℕ
  inTake : Thread → Bool
  base : ℕ
  releases : ℕ
  okReturns : ℕ
  granted : List Thread
  earlier : List Thread

/-- `rt_sem_take` up to `rt_schedule()`; an interrupt handler is no thread. -/
def rtSemTake (flag : IpcFlag) (s : SemState) (caller : Option Thread) (time : ℤ) :
    Option SemState :=
  if 0 < s.value then
    some { s with value := s.value - 1, okReturns := s.okReturns + 1 }
  else if time = 0 then some s
  else caller.map fun t =>
    { s with
      core := startTimer (rtIpcListSuspend (setError s.core t .eok) () flag t) t time
      inTake := update s.inTake t true }

/-- The end of `rt_sem_take` after `rt_schedule()`, which returns `error`. -/
def returnFromTake (s : SemState) (t : Thread) : SemState :=
  { s with
    inTake := update s.inTake t false
    okReturns := if (s.core.threads t).error = .eok ∧ t ∉ s.earlier then s.okReturns + 1
      else s.okReturns
    granted := s.granted.erase t
    earlier := s.earlier.erase t }

def rtSemRelease (s : SemState) : SemState :=
  match s.core.wait () with
  | [] => { s with value := (s.value + 1) % 65536, releases := s.releases + 1 }
  | t :: _ =>
    { s with
      core := rtThreadResume s.core t
      releases := s.releases + 1
      granted := t :: s.granted }

def rtSemReset (s : SemState) (arg : UInt32) : Option SemState :=
  (rtIpcListResumeAll () (s.core.wait ()).length s.core).map fun core =>
    { s with
      core := core
      value := arg.toNat % 65536
      base := arg.toNat % 65536
      releases := 0
      okReturns := 0
      granted := []
      earlier := s.granted ++ s.earlier }

inductive Action where
  | take (caller : Option Thread) (time : ℤ)
  | finish (t : Thread)
  | release
  | timeout (t : Thread)
  | reset (arg : UInt32)

def Action.Enabled (s : SemState) : Action → Prop
  | .take none _ => True
  | .take (some t) _ => (s.core.threads t).stat = .ready ∧ s.inTake t = false
  | .finish t => (s.core.threads t).stat = .ready ∧ s.inTake t = true
  | .release => True
  | .timeout t => (s.core.threads t).timerActive = true
  | .reset _ => True

def execute (flag : IpcFlag) (s : SemState) : Action → Option SemState
  | .take caller time => rtSemTake flag s caller time
  | .finish t => some (returnFromTake s t)
  | .release => some (rtSemRelease s)
  | .timeout t => some { s with core := rtThreadTimeout s.core t }
  | .reset arg => rtSemReset s arg

def semSystem (flag : IpcFlag) (value : UInt32) : TransitionSystem SemState Action where
  init s := s.core.wait () = [] ∧
    (∀ t, (s.core.threads t).stat = .ready ∧ (s.core.threads t).timerActive = false ∧
      s.inTake t = false) ∧
    s.value = value.toNat % 65536 ∧ s.base = value.toNat % 65536 ∧
    s.releases = 0 ∧ s.okReturns = 0 ∧ s.granted = [] ∧ s.earlier = []
  step s action s' := action.Enabled s ∧ execute flag s action = some s'

variable {flag : IpcFlag} {s s' : SemState} {t u : Thread}

def WillSucceed (s : SemState) (t : Thread) : Prop :=
  s.inTake t = true ∧ (s.core.threads t).stat = .ready ∧ (s.core.threads t).error = .eok

/-- The value, the takes and the grants add up to the releases, modulo 65536. -/
structure SemInv (s : SemState) : Prop where
  linked : Linked s.core
  value_lt : s.value < 65536
  conserved : (s.value + s.okReturns + s.granted.length) % 65536 = (s.base + s.releases) % 65536
  value_zero : s.core.wait () ≠ [] → s.value = 0
  waiting : ∀ t ∈ s.core.wait (), s.inTake t = true ∧ (s.core.threads t).error = .eok
  nodup : (s.granted ++ s.earlier).Nodup
  mem_iff : ∀ t, t ∈ s.granted ++ s.earlier ↔ WillSucceed s t

namespace SemInv

section

variable (hinv : SemInv s)
include hinv

theorem not_granted_of_suspend (hstat : (s.core.threads t).stat = .suspend) :
    t ∉ s.granted ++ s.earlier := by
  rw [hinv.mem_iff]
  rintro ⟨-, hready, -⟩
  rw [hstat] at hready
  cases hready

theorem asleep {time : ℤ} (hready : (s.core.threads t).stat = .ready)
    (houtside : s.inTake t = false) (hvalue : s.value = 0) :
    SemInv { s with
      core := Ipc.asleep (setError s.core t .eok) () flag t time
      inTake := update s.inTake t true } := by
  have hlinked := hinv.linked.setError t .eok
  have hready' : ((setError s.core t .eok).threads t).stat = .ready := by
    simp [setError, Core.setThread, hready]
  have herror' : ((setError s.core t .eok).threads t).error = .eok := by
    simp [setError, Core.setThread]
  have hother' : ∀ u, u ≠ t → (setError s.core t .eok).threads u = s.core.threads u := by
    intro u hut
    simp [setError, Core.setThread, hut]
  have hwait' : (setError s.core t .eok).wait = s.core.wait := rfl
  generalize setError s.core t .eok = core at *
  rcases asleep_wait core () flag t time with ⟨hperm, -⟩
  rcases asleep_threads () flag time hready' with ⟨hstat, herror, -, hother⟩
  refine ⟨hlinked.asleep hready', hinv.value_lt, hinv.conserved, fun _ => hvalue, ?_,
    hinv.nodup, ?_⟩
  · intro u hu
    change u ∈ (Ipc.asleep core () flag t time).wait () at hu
    rw [hperm.mem_iff, mem_cons, hwait'] at hu
    by_cases hut : u = t
    · simp only [hut, update_self, herror, herror', and_self]
    · simp only [hother u hut, hother' u hut, update_of_ne hut]
      exact hinv.waiting u (hu.resolve_left hut)
  · intro u
    rw [hinv.mem_iff u]
    unfold WillSucceed
    by_cases hut : u = t
    · simp [hut, hstat, houtside]
    · simp only [hother u hut, hother' u hut, update_of_ne hut]

theorem timeout (hstat : (s.core.threads t).stat = .suspend) :
    SemInv { s with core := woken s.core t .etimeout } := by
  have hnot := hinv.not_granted_of_suspend hstat
  refine ⟨hinv.linked.woken t _, hinv.value_lt, hinv.conserved, ?_, ?_, hinv.nodup, ?_⟩
  · intro hne
    apply hinv.value_zero
    intro hnil
    apply hne
    change (s.core.wait ()).erase t = []
    rw [hnil]
    rfl
  · intro u hu
    rcases ((hinv.linked.nodup ()).mem_erase_iff).mp hu with ⟨hut, hu⟩
    simp only [woken_of_ne hut]
    exact hinv.waiting u hu
  · intro u
    by_cases hut : u = t
    · rw [hut]
      simp [hnot, WillSucceed, woken_self]
    · rw [hinv.mem_iff u]
      simp only [WillSucceed, woken_of_ne hut]

theorem grant {rest : List Thread} (hlist : s.core.wait () = t :: rest) :
    SemInv { s with
      core := woken s.core t .eok
      releases := s.releases + 1
      granted := t :: s.granted } := by
  have hmem : t ∈ s.core.wait () := by simp [hlist]
  have hstat := hinv.linked.suspended () t hmem
  have hnot := hinv.not_granted_of_suspend hstat
  have hwaiting := hinv.waiting t hmem
  have hvalue := hinv.value_zero (by simp [hlist])
  have hconserved := hinv.conserved
  refine ⟨hinv.linked.woken t _, hinv.value_lt, ?_, fun _ => hvalue, ?_, ?_, ?_⟩
  · simp only [length_cons]
    lia
  · intro u hu
    rcases ((hinv.linked.nodup ()).mem_erase_iff).mp hu with ⟨hut, hu⟩
    simp only [woken_of_ne hut]
    exact hinv.waiting u hu
  · exact nodup_cons.mpr ⟨hnot, hinv.nodup⟩
  · intro u
    rw [cons_append, mem_cons, hinv.mem_iff u]
    by_cases hut : u = t
    · simp [hut, WillSucceed, woken_self, hwaiting.1]
    · simp only [hut, false_or, WillSucceed, woken_of_ne hut]

theorem returnFromTake (hready : (s.core.threads t).stat = .ready)
    (hinside : s.inTake t = true) : SemInv (returnFromTake s t) := by
  have hnodup := hinv.nodup
  rw [nodup_append] at hnodup
  rcases hnodup with ⟨hgranted, hearlier, hdisjoint⟩
  have hmem : t ∈ s.granted ++ s.earlier ↔ (s.core.threads t).error = .eok := by
    rw [hinv.mem_iff]
    exact ⟨fun h => h.2.2, fun h => ⟨hinside, hready, h⟩⟩
  have hconserved := hinv.conserved
  refine ⟨hinv.linked, hinv.value_lt, ?_, hinv.value_zero, ?_, ?_, ?_⟩
  · simp only [Semaphore.returnFromTake]
    by_cases hg : t ∈ s.granted
    · have hne : t ∉ s.earlier := fun he => hdisjoint t hg t he rfl
      have herror := hmem.mp (mem_append_left _ hg)
      have hpos := length_pos_of_mem hg
      rw [if_pos ⟨herror, hne⟩, length_erase_of_mem hg]
      lia
    · have hif : ¬((s.core.threads t).error = .eok ∧ t ∉ s.earlier) := by
        rintro ⟨herror, hne⟩
        rcases mem_append.mp (hmem.mpr herror) with hin | hin
        · exact hg hin
        · exact hne hin
      rw [if_neg hif, erase_of_not_mem hg]
      exact hconserved
  · intro u hu
    have hut : u ≠ t := by
      intro heq
      rw [heq] at hu
      exact hinv.linked.not_mem_of_ready hready hu
    simp only [Semaphore.returnFromTake, update_of_ne hut]
    exact hinv.waiting u hu
  · simp only [Semaphore.returnFromTake]
    rw [nodup_append]
    refine ⟨hgranted.erase t, hearlier.erase t, ?_⟩
    intro u hu v hv
    exact hdisjoint u (mem_of_mem_erase hu) v (mem_of_mem_erase hv)
  · intro u
    simp only [Semaphore.returnFromTake, mem_append, hgranted.mem_erase_iff,
      hearlier.mem_erase_iff]
    have hold := hinv.mem_iff u
    rw [mem_append] at hold
    by_cases hut : u = t
    · simp [hut, WillSucceed]
    · simp only [ne_eq, hut, not_false_eq_true, true_and, hold, WillSucceed,
        update_of_ne hut]

theorem rtSemRelease_cases : (s.core.wait () = [] ∧ rtSemRelease s =
          { s with value := (s.value + 1) % 65536, releases := s.releases + 1 }) ∨
      ∃ t rest, s.core.wait () = t :: rest ∧ rtSemRelease s =
          { s with
            core := woken s.core t .eok
            releases := s.releases + 1
            granted := t :: s.granted } := by
  unfold rtSemRelease
  cases hlist : s.core.wait () with
  | nil => exact .inl ⟨rfl, rfl⟩
  | cons t rest =>
    have hmem : t ∈ s.core.wait () := by simp [hlist]
    refine .inr ⟨t, rest, rfl, ?_⟩
    simp only [hinv.linked.rtThreadResume_eq hmem, (hinv.waiting t hmem).2]

theorem rtSemRelease : SemInv (rtSemRelease s) := by
  rcases hinv.rtSemRelease_cases with ⟨hnil, hrelease⟩ | ⟨t, rest, hlist, hrelease⟩
  · have hconserved := hinv.conserved
    rw [hrelease]
    refine ⟨hinv.linked, Nat.mod_lt _ (by decide), ?_, ?_, hinv.waiting, hinv.nodup, hinv.mem_iff⟩
    · simp only
      lia
    · exact fun hne => absurd hnil hne
  · rw [hrelease]
    exact hinv.grant hlist

theorem rtSemReset (arg : UInt32) :
    ∃ s', rtSemReset s arg = some s' ∧ SemInv s' ∧ s'.core.wait () = [] ∧
      s'.value = arg.toNat % 65536 ∧ (∀ t ∈ s.core.wait (), (s'.core.threads t).stat = .ready ∧
        (s'.core.threads t).error = .error) ∧
      s'.base = arg.toNat % 65536 ∧ s'.releases = 0 ∧ s'.okReturns = 0 ∧ s'.granted = [] := by
  rcases hinv.linked.rtIpcListResumeAll (le_refl (s.core.wait ()).length)
    with ⟨core, hall, hlinked, hnil, hready, hsame⟩
  unfold Semaphore.rtSemReset
  rw [hall]
  refine ⟨_, rfl, ?_, hnil, rfl, hready, rfl, rfl, rfl, rfl⟩
  have hlt : arg.toNat % 65536 < 65536 := Nat.mod_lt _ (by decide)
  refine ⟨hlinked, hlt, rfl, fun hne => absurd hnil hne, ?_, ?_, ?_⟩
  · simp only [hnil]
    simp
  · exact hinv.nodup
  · intro u
    have hold := hinv.mem_iff u
    simp only [nil_append, hold, WillSucceed]
    by_cases hu : u ∈ s.core.wait ()
    · have hstat := hinv.linked.suspended () u hu
      simp [hstat, (hready u hu).2]
    · rw [hsame u hu]

theorem rtSemTake {caller : Option Thread} {time : ℤ}
    (hready : ∀ t, caller = some t → (s.core.threads t).stat = .ready ∧ s.inTake t = false)
    (htake : rtSemTake flag s caller time = some s') : SemInv s' := by
  unfold Semaphore.rtSemTake at htake
  split_ifs at htake with hvalue htime
  · have hconserved := hinv.conserved
    have hlt := hinv.value_lt
    rw [← some.inj htake]
    refine ⟨hinv.linked, ?_, ?_, ?_, hinv.waiting, hinv.nodup, hinv.mem_iff⟩
    · simp only
      lia
    · simp only
      rw [show s.value - 1 + (s.okReturns + 1) = s.value + s.okReturns by lia]
      exact hconserved
    · intro hne
      have hzero := hinv.value_zero hne
      lia
  · exact some.inj htake ▸ hinv
  · rcases map_eq_some_iff.mp htake with ⟨t, hcaller, rfl⟩
    rcases hready t hcaller with ⟨hstat, hout⟩
    exact hinv.asleep hstat hout (by lia)

theorem execute {action : Action} (henabled : action.Enabled s)
    (hexecute : execute flag s action = some s') : SemInv s' := by
  cases action with
  | take caller time =>
    apply hinv.rtSemTake _ hexecute
    rintro t rfl
    exact henabled
  | finish t =>
    exact some.inj hexecute ▸ hinv.returnFromTake henabled.1 henabled.2
  | release => exact some.inj hexecute ▸ hinv.rtSemRelease
  | timeout t =>
    rw [← some.inj hexecute, rtThreadTimeout_eq]
    exact hinv.timeout (hinv.linked.timer t henabled)
  | reset arg =>
    rcases hinv.rtSemReset arg with ⟨s'', hreset, hinv', -⟩
    rw [Semaphore.execute, hreset] at hexecute
    exact some.inj hexecute ▸ hinv'

end

theorem of_init {value : UInt32} (hinit : (semSystem flag value).init s) : SemInv s := by
  rcases hinit with ⟨hwait, hthreads, hvalue, hbase, hreleases, hok, hgranted, hearlier⟩
  have hlt : value.toNat % 65536 < 65536 := Nat.mod_lt _ (by decide)
  refine ⟨.of_empty (fun _ => hwait) (fun t => (hthreads t).2.1), ?_, ?_, ?_, ?_, ?_, ?_⟩
  · rw [hvalue]
    exact hlt
  · rw [hvalue, hbase, hreleases, hok, hgranted]
    rfl
  · exact fun hne => absurd hwait hne
  · rw [hwait]
    simp
  · rw [hgranted, hearlier]
    exact nodup_nil
  · intro t
    simp [hgranted, hearlier, WillSucceed, (hthreads t).2.2]

theorem of_reachable {value : UInt32} {guard : SemState → Action → Prop}
    (hreach : (semSystem flag value).Reachable guard s) :
    SemInv s := by
  apply hreach.invariant (P := fun s => SemInv s)
  · exact fun s hinit => of_init hinit
  · rintro s action s' hinv - ⟨henabled, hexecute⟩
    exact hinv.execute henabled hexecute

end SemInv

/-- The tokens of the semaphore are accounted for, and releases and resets do
what they should. -/
structure TokensConserved (s : SemState) : Prop where
  conserved : (s.value + (s.okReturns + s.granted.length)) % 65536 = (s.base + s.releases) % 65536
  granted_iff : ∀ t, t ∈ s.granted ++ s.earlier ↔
      s.inTake t = true ∧ (s.core.threads t).stat = .ready ∧ (s.core.threads t).error = .eok
  granted_nodup : (s.granted ++ s.earlier).Nodup
  no_waiter : 0 < s.value → s.core.wait () = []
  release : (s.core.wait () = [] ∧ (rtSemRelease s).value = (s.value + 1) % 65536 ∧
        (rtSemRelease s).core = s.core) ∨
      ∃ t rest, s.core.wait () = t :: rest ∧ (rtSemRelease s).core.wait () = rest ∧
        (rtSemRelease s).value = s.value ∧
        ((rtSemRelease s).core.threads t).stat = .ready ∧
        ((rtSemRelease s).core.threads t).error = .eok ∧
        ∀ u, u ≠ t → (rtSemRelease s).core.threads u = s.core.threads u
  reset : ∀ arg : UInt32, ∃ s', rtSemReset s arg = some s' ∧ s'.core.wait () = [] ∧
      s'.value = arg.toNat % 65536 ∧
      (∀ t ∈ s.core.wait (), (s'.core.threads t).stat = .ready ∧
        (s'.core.threads t).error = .error) ∧
      s'.base = arg.toNat % 65536 ∧ s'.releases = 0 ∧ s'.okReturns = 0 ∧ s'.granted = []

/-- In every run the value is the start value plus the releases minus the takes
which have returned or will return `RT_EOK`. -/
theorem tokensConserved_of_reachable (flag : IpcFlag) (value : UInt32)
    (hreach : (semSystem flag value).Reachable (fun _ _ => True) s) :
    TokensConserved s := by
  have hinv := SemInv.of_reachable hreach
  constructor
  · rw [← Nat.add_assoc]
    exact hinv.conserved
  · exact hinv.mem_iff
  · exact hinv.nodup
  · intro hpos
    by_contra hne
    have hzero := hinv.value_zero hne
    omega
  · rcases hinv.rtSemRelease_cases with ⟨hnil, hrelease⟩ | ⟨t, rest, hlist, hrelease⟩
    · rw [hrelease]
      exact .inl ⟨hnil, rfl, rfl⟩
    · rw [hrelease]
      refine .inr ⟨t, rest, hlist, ?_, rfl, ?_, ?_, fun u hut => woken_of_ne hut⟩
      · rw [woken_wait, hlist, erase_cons_head]
      · rw [woken_self]
      · rw [woken_self]
  · intro arg
    rcases hinv.rtSemReset arg with ⟨s', hreset, -, hspec⟩
    exact ⟨s', hreset, hspec⟩

instance (s : SemState) (action : Action) : Decidable (action.Enabled s) :=
  match action with
  | .take none _ => isTrue trivial
  | .take (some _) _ => inferInstanceAs (Decidable (_ ∧ _))
  | .finish _ => inferInstanceAs (Decidable (_ ∧ _))
  | .release => isTrue trivial
  | .timeout _ => inferInstanceAs (Decidable (_ = _))
  | .reset _ => isTrue trivial

def sampleInit (value : UInt32) : SemState where
  core := ⟨fun _ => ⟨.ready, .eok, 10, false⟩, fun _ => []⟩
  value := value.toNat % 65536
  inTake := fun _ => false
  base := value.toNat % 65536
  releases := 0
  okReturns := 0
  granted := []
  earlier := []

def sampleRun (flag : IpcFlag) (value : UInt32) (actions : List Action) : Option SemState :=
  actions.foldlM (fun s action => if action.Enabled s then execute flag s action else none)
    (sampleInit value)

theorem reachable_sampleRun {value : UInt32} {actions : List Action}
    (hrun : sampleRun flag value actions = some s) :
    (semSystem flag value).Reachable (fun _ _ => True) s := by
  have hstart : (semSystem flag value).init (sampleInit value) :=
    ⟨rfl, fun _ => ⟨rfl, rfl, rfl⟩, rfl, rfl, rfl, rfl, rfl, rfl⟩
  apply TransitionSystem.Reachable.foldlM _ (.start hstart) hrun
  intro s action s' hstep
  split_ifs at hstep with henabled
  exact ⟨trivial, henabled, hstep⟩

theorem tokensConserved_of_sample_actions :
    ∃ s, (semSystem .prio 1).Reachable (fun _ _ => True) s ∧
      s.granted = [⟨2, by decide⟩] ∧ TokensConserved s := by
  have hrun : (sampleRun .prio 1
      [.take (some ⟨1, by decide⟩) 5, .take (some ⟨2, by decide⟩) (-1),
        .take (some ⟨3, by decide⟩) 7, .timeout ⟨3, by decide⟩, .release]).map
        SemState.granted = some [⟨2, by decide⟩] := by decide
  rcases map_eq_some_iff.mp hrun with ⟨s, hs, hgranted⟩
  have hreach := reachable_sampleRun hs
  exact ⟨s, hreach, hgranted, tokensConserved_of_reachable .prio 1 hreach⟩

end RtThread.Semaphore
