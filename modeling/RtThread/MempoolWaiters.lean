import RtThread.MempoolModel

/-!
# The waiting threads of a memory pool

The threads linked to `suspend_thread` are the suspended ones.  The counter
beside the list follows it as long as threads leave the list through
`rt_mp_free`, `rt_mp_detach` and `rt_mp_delete` only: `rt_thread_timeout` unlinks
a thread without telling the pool.
-/

namespace RtThread.MemPool

open List Option Word

variable {a : AlignSize} {s s' : State} {t u : Thread} {code : ErrorCode}

/-- The suspended threads are those on the list of the pool. -/
structure Waiting (s : State) : Prop where
  nodup : s.mp.suspendThread.Nodup
  mem_iff : ∀ t, t ∈ s.mp.suspendThread ↔ (s.threads t).stat = .suspend
  scheduled : ∀ t, (s.threads t).stat = .suspend → (s.threads t).point = .scheduled
  timer : ∀ t, (s.threads t).timerActive = true → (s.threads t).stat = .suspend

def woken (s : State) (t : Thread) (code : ErrorCode) : State :=
  { s.setThread t ⟨.ready, code, false, (s.threads t).point⟩ with
    mp := { s.mp with suspendThread := s.mp.suspendThread.erase t } }

theorem woken_self (s : State) (t : Thread) (code : ErrorCode) :
    (woken s t code).threads t = ⟨.ready, code, false, (s.threads t).point⟩ := by
  simp [woken, State.setThread]

theorem woken_of_ne (hne : u ≠ t) : (woken s t code).threads u = s.threads u := by
  simp [woken, State.setThread, hne]

theorem makeReady_setError (s : State) (t : Thread) (code : ErrorCode) :
    makeReady (setError s t code) t = woken s t code := by
  simp [makeReady, setError, woken, State.setThread]

theorem rtThreadTimeout_eq (s : State) (t : Thread) : rtThreadTimeout s t = woken s t .etimeout :=
  makeReady_setError s t .etimeout

def countDown (s : State) : State :=
  { s with mp := { s.mp with suspendThreadCount := pred32 s.mp.suspendThreadCount } }

theorem resumeFirst_nil (hlist : s.mp.suspendThread = []) : resumeFirst s code = none := by
  unfold resumeFirst
  rw [hlist]

namespace Waiting

section

variable (hwaiting : Waiting s)
include hwaiting

theorem resumeFirst_cons {rest : List Thread} (hlist : s.mp.suspendThread = t :: rest) :
    resumeFirst s code = some (countDown (woken s t code), t) := by
  have hstat : (s.threads t).stat = .suspend := by
    rw [← hwaiting.mem_iff, hlist]
    exact mem_cons_self
  have hresume : rtThreadResume (setError s t code) t = woken s t code := by
    unfold rtThreadResume
    rw [if_neg (by simp [setError, State.setThread, hstat]), makeReady_setError]
  unfold resumeFirst
  rw [hlist]
  simp only [hresume]
  rfl

theorem congr (hthreads : s'.threads = s.threads)
    (hlist : s'.mp.suspendThread = s.mp.suspendThread) : Waiting s' := by
  constructor
  · rw [hlist]
    exact hwaiting.nodup
  · rw [hlist, hthreads]
    exact hwaiting.mem_iff
  · rw [hthreads]
    exact hwaiting.scheduled
  · rw [hthreads]
    exact hwaiting.timer

theorem of_update (hother : ∀ u, u ≠ t → s'.threads u = s.threads u)
    (hnodup : s'.mp.suspendThread.Nodup)
    (hlist : ∀ u, u ≠ t → (u ∈ s'.mp.suspendThread ↔ u ∈ s.mp.suspendThread))
    (hmem : t ∈ s'.mp.suspendThread ↔ (s'.threads t).stat = .suspend)
    (hscheduled : (s'.threads t).stat = .suspend → (s'.threads t).point = .scheduled)
    (htimer : (s'.threads t).timerActive = true → (s'.threads t).stat = .suspend) : Waiting s' := by
  constructor
  · exact hnodup
  · intro u
    by_cases hut : u = t
    · rw [hut]
      exact hmem
    · rw [hlist u hut, hother u hut]
      exact hwaiting.mem_iff u
  · intro u
    by_cases hut : u = t
    · rw [hut]
      exact hscheduled
    · rw [hother u hut]
      exact hwaiting.scheduled u
  · intro u
    by_cases hut : u = t
    · rw [hut]
      exact htimer
    · rw [hother u hut]
      exact hwaiting.timer u

theorem woken (t : Thread) (code : ErrorCode) : Waiting (woken s t code) := by
  apply hwaiting.of_update (t := t) (fun u hut => woken_of_ne hut)
  · exact hwaiting.nodup.erase t
  · intro u hut
    exact (hwaiting.nodup.mem_erase_iff).trans (by simp [hut])
  · rw [woken_self]
    simp [MemPool.woken, hwaiting.nodup.mem_erase_iff]
  · simp [woken_self]
  · simp [woken_self]

theorem waitForBlock (hready : (s.threads t).stat = .ready) (time : ℤ) :
    Waiting (waitForBlock s t time) := by
  have hself : ((MemPool.waitForBlock s t time).threads t).stat = .suspend ∧
      ((MemPool.waitForBlock s t time).threads t).point = .scheduled := by
    simp [MemPool.waitForBlock, State.setThread]
  apply hwaiting.of_update (t := t)
  · intro u hut
    simp [MemPool.waitForBlock, State.setThread, hut]
  · apply nodup_cons.mpr
    refine ⟨?_, hwaiting.nodup⟩
    rw [hwaiting.mem_iff, hready]
    decide
  · intro u hut
    simp [MemPool.waitForBlock, hut]
  · rw [hself.1]
    simp [MemPool.waitForBlock]
  · exact fun _ => hself.2
  · exact fun _ => hself.1

theorem setPoint {point : AllocPoint}
    (hready : (s.threads t).stat = .ready) : Waiting (setPoint s t point) := by
  have hself : (MemPool.setPoint s t point).threads t = { s.threads t with point := point } := by
    simp [MemPool.setPoint, State.setThread]
  apply hwaiting.of_update (t := t)
  · intro u hut
    simp [MemPool.setPoint, State.setThread, hut]
  · exact hwaiting.nodup
  · exact fun u _ => Iff.rfl
  · rw [hself]
    exact hwaiting.mem_iff t
  · rw [hself, hready]
    simp
  · rw [hself]
    exact hwaiting.timer t

theorem ready_of_granted (hpoint : (s.threads t).point = .granted) :
    (s.threads t).stat = .ready := by
  cases hstat : (s.threads t).stat with
  | ready => rfl
  | suspend =>
    have hscheduled := hwaiting.scheduled t hstat
    rw [hpoint] at hscheduled
    cases hscheduled

end

end Waiting

theorem rtMpAlloc_cases {mp : ℕ} {caller : Option Thread} {time : ℤ}
    (halloc : rtMpAlloc mp s caller time = some s') :
    (s.mp.blockFreeCount ≠ 0 ∧ s' = takeBlock mp s) ∨ (s.mp.blockFreeCount = 0 ∧ s' = s) ∨
      ∃ t, caller = some t ∧ s.mp.blockFreeCount = 0 ∧ s' = waitForBlock s t time := by
  unfold rtMpAlloc at halloc
  split_ifs at halloc with hempty hzero
  · exact .inl ⟨hempty, (some.inj halloc).symm⟩
  · exact .inr (.inl ⟨not_not.mp hempty, (some.inj halloc).symm⟩)
  · rcases map_eq_some_iff.mp halloc with ⟨t, hcaller, hs'⟩
    exact .inr (.inr ⟨t, hcaller, not_not.mp hempty, hs'.symm⟩)

theorem rtMpFree_cases {blockPtr : ℕ} (hfree : rtMpFree s blockPtr = some s') :
    (s.mp.suspendThreadCount = 0 ∧ s' = putBlock s blockPtr) ∨
      ∃ result, resumeFirst (putBlock s blockPtr) .eok = some result ∧
        s' = { result.1 with owed := result.2 :: result.1.owed } := by
  unfold rtMpFree at hfree
  simp only at hfree
  split_ifs at hfree with hpos
  · rcases map_eq_some_iff.mp hfree with ⟨result, hresume, hs'⟩
    exact .inr ⟨result, hresume, hs'.symm⟩
  · exact .inl ⟨Nat.eq_zero_of_not_pos hpos, (some.inj hfree).symm⟩

section

variable (hwaiting : Waiting s)
include hwaiting

theorem Waiting.takeBlock (mp : ℕ) : Waiting (takeBlock mp s) :=
  hwaiting.congr rfl rfl

theorem Waiting.putBlock (blockPtr : ℕ) : Waiting (putBlock s blockPtr) :=
  hwaiting.congr rfl rfl

theorem Waiting.rtMpAlloc {mp : ℕ} {caller : Option Thread} {time : ℤ}
    (hready : ∀ t, caller = some t → (s.threads t).stat = .ready)
    (halloc : rtMpAlloc mp s caller time = some s') : Waiting s' := by
  rcases rtMpAlloc_cases halloc with ⟨-, rfl⟩ | ⟨-, rfl⟩ | ⟨t, hcaller, -, rfl⟩
  · exact hwaiting.takeBlock mp
  · exact hwaiting
  · exact hwaiting.waitForBlock (hready t hcaller) time

theorem Waiting.resumeFirst {result : State × Thread}
    (hresume : resumeFirst s code = some result) : Waiting result.1 := by
  cases hlist : s.mp.suspendThread with
  | nil =>
    rw [resumeFirst_nil hlist] at hresume
    cases hresume
  | cons t rest =>
    rw [hwaiting.resumeFirst_cons hlist] at hresume
    rw [← some.inj hresume]
    exact (hwaiting.woken t code).congr rfl rfl

theorem Waiting.rtMpFree {blockPtr : ℕ} (hfree : rtMpFree s blockPtr = some s') : Waiting s' := by
  rcases rtMpFree_cases hfree with ⟨-, rfl⟩ | ⟨result, hresume, rfl⟩
  · exact hwaiting.putBlock blockPtr
  · exact ((hwaiting.putBlock blockPtr).resumeFirst hresume).congr rfl rfl

/-- The waiters stay on the list, whatever section runs. -/
theorem Waiting.execute {mp : ℕ} {action : Action}
    (henabled : action.Enabled mp s) (hexecute : execute mp s action = some s') : Waiting s' := by
  cases action with
  | alloc caller time =>
    apply hwaiting.rtMpAlloc _ hexecute
    rintro t rfl
    exact henabled.1
  | checkError t =>
    exact some.inj hexecute ▸ hwaiting.setPoint henabled.1
  | takeGranted t =>
    have hready := hwaiting.ready_of_granted henabled
    exact some.inj hexecute ▸
      ((hwaiting.takeBlock mp).setPoint (t := t) hready).congr rfl rfl
  | free blockPtr => exact hwaiting.rtMpFree hexecute
  | timeout t =>
    rw [← some.inj hexecute, rtThreadTimeout_eq]
    exact hwaiting.woken t _
  | detachTest => exact some.inj hexecute ▸ hwaiting.congr rfl rfl
  | detachResume =>
    rcases map_eq_some_iff.mp hexecute with ⟨result, hresume, rfl⟩
    exact (hwaiting.resumeFirst hresume).congr rfl rfl

end

def Action.KeepsCount (s : State) : Action → Prop
  | .timeout _ => False
  | .detachResume => s.mp.suspendThread ≠ []
  | _ => True

/-- The counter is the length of the list, and `rt_mp_free` of a block of the pool
resumes a thread only when there is one. -/
structure CountIntact (area : PoolArea a) (s : State) : Prop where
  count_eq : s.mp.suspendThreadCount = s.mp.suspendThread.length
  resume_nonempty : s.mp.suspendThreadCount > 0 → s.mp.suspendThread ≠ []
  free_returns : ∀ blockPtr, (Action.free blockPtr).Enabled area.mp s →
      ∃ s', execute area.mp s (.free blockPtr) = some s'

theorem Waiting.length_lt (hwaiting : Waiting s) : s.mp.suspendThread.length < 4294967296 := by
  have hnodup : (s.mp.suspendThread.map fun t => t.1.toNat).Nodup := by
    apply hwaiting.nodup.map
    intro t u htu
    exact Subtype.ext (UInt32.toNat_inj.mp htu)
  have hle : (s.mp.suspendThread.map fun t => t.1.toNat).length ≤ 4294967296 - 1 := by
    apply length_le_of_nodup hnodup
    · intro i hi
      rcases mem_map.mp hi with ⟨t, -, rfl⟩
      have hne : t.1.toNat ≠ (0 : UInt32).toNat := fun heq => t.2 (UInt32.toNat_inj.mp heq)
      rw [UInt32.toNat_zero] at hne
      omega
    · intro i hi
      rcases mem_map.mp hi with ⟨t, -, rfl⟩
      exact t.1.toNat_lt
  rw [length_map] at hle
  omega

theorem count_of_resumeFirst {result : State × Thread} (hwaiting : Waiting s)
    (hcount : s.mp.suspendThreadCount = s.mp.suspendThread.length)
    (hresume : resumeFirst s code = some result) :
    result.1.mp.suspendThreadCount = result.1.mp.suspendThread.length := by
  cases hlist : s.mp.suspendThread with
  | nil =>
    rw [resumeFirst_nil hlist] at hresume
    cases hresume
  | cons t rest =>
    rw [hwaiting.resumeFirst_cons hlist] at hresume
    rw [← some.inj hresume]
    have hmem : t ∈ s.mp.suspendThread := by simp [hlist]
    have hpos : 0 < s.mp.suspendThread.length := length_pos_of_mem hmem
    change pred32 s.mp.suspendThreadCount = (s.mp.suspendThread.erase t).length
    rw [length_erase_of_mem hmem, hcount, pred32_eq_of_pos hpos]

theorem count_of_execute {mp : ℕ} {action : Action} (hwaiting : Waiting s)
    (hcount : s.mp.suspendThreadCount = s.mp.suspendThread.length) (hkeeps : action.KeepsCount s)
    (henabled : action.Enabled mp s) (hexecute : execute mp s action = some s') :
    s'.mp.suspendThreadCount = s'.mp.suspendThread.length := by
  have hlt := (hwaiting.execute henabled hexecute).length_lt
  cases action with
  | alloc caller time =>
    rcases rtMpAlloc_cases hexecute with ⟨-, rfl⟩ | ⟨-, rfl⟩ | ⟨t, -, -, rfl⟩
    · exact hcount
    · exact hcount
    · change add32 s.mp.suspendThreadCount 1 = s.mp.suspendThread.length + 1
      rw [hcount]
      exact add32_eq_of_lt hlt
  | checkError t | takeGranted t => exact some.inj hexecute ▸ hcount
  | free blockPtr =>
    rcases rtMpFree_cases hexecute with ⟨-, rfl⟩ | ⟨result, hresume, rfl⟩
    · exact hcount
    · exact count_of_resumeFirst (hwaiting.putBlock blockPtr) hcount hresume
  | timeout t => exact absurd hkeeps id
  | detachTest => exact some.inj hexecute ▸ hcount
  | detachResume =>
    rcases map_eq_some_iff.mp hexecute with ⟨result, hresume, rfl⟩
    exact count_of_resumeFirst hwaiting hcount hresume

theorem Waiting.of_init {area : PoolArea a} (hinit : (poolSystem area).init s) :
    Waiting s ∧ s.mp.suspendThreadCount = s.mp.suspendThread.length := by
  rcases hinit with ⟨⟨header, hpool⟩, hthreads, -, -, -⟩
  have hmp : s.mp = (rtMpInit a header area.start area.size area.blockSize).2 := by
    rw [← hpool]
  have hlist : s.mp.suspendThread = [] := by rw [hmp]; rfl
  have hcount : s.mp.suspendThreadCount = 0 := by rw [hmp]; rfl
  refine ⟨⟨?_, ?_, ?_, ?_⟩, ?_⟩
  · rw [hlist]
    exact nodup_nil
  · intro t
    rw [hlist, (hthreads t).1]
    simp
  · intro t
    rw [(hthreads t).1]
    simp
  · intro t
    rw [(hthreads t).2.2]
    simp
  · rw [hlist, hcount]
    rfl

/-- In every run in which no waiting thread times out and the loop of
`rt_mp_detach` finds the thread it has tested for, the counter is right. -/
theorem countIntact_of_reachable (area : PoolArea a)
    (hreach : (poolSystem area).Reachable (fun s action => action.KeepsCount s) s) :
    CountIntact area s := by
  have hinv : Waiting s ∧ s.mp.suspendThreadCount = s.mp.suspendThread.length := by
    apply hreach.invariant
      (P := fun s => Waiting s ∧ s.mp.suspendThreadCount = s.mp.suspendThread.length)
    · exact fun s hinit => Waiting.of_init hinit
    · rintro s action s' ⟨hwaiting, hcount⟩ hkeeps ⟨henabled, hexecute⟩
      exact ⟨hwaiting.execute henabled hexecute,
        count_of_execute hwaiting hcount hkeeps henabled hexecute⟩
  rcases hinv with ⟨hwaiting, hcount⟩
  have hnonempty : s.mp.suspendThreadCount > 0 → s.mp.suspendThread ≠ [] := by
    intro hpos hnil
    rw [hcount, hnil] at hpos
    cases hpos
  refine ⟨hcount, hnonempty, ?_⟩
  intro blockPtr _
  unfold execute rtMpFree
  simp only
  split_ifs with hpos
  · rcases exists_cons_of_ne_nil (hnonempty hpos) with ⟨t, rest, hlist⟩
    rw [(hwaiting.putBlock blockPtr).resumeFirst_cons hlist]
    exact ⟨_, rfl⟩
  · exact ⟨_, rfl⟩

instance (s : State) (action : Action) : Decidable (action.KeepsCount s) :=
  match action with
  | .timeout _ => isFalse id
  | .detachResume => inferInstanceAs (Decidable (_ ≠ _))
  | .alloc _ _ => isTrue trivial
  | .checkError _ => isTrue trivial
  | .takeGranted _ => isTrue trivial
  | .free _ => isTrue trivial
  | .detachTest => isTrue trivial

theorem countIntact_of_sample_actions :
    ∃ s, (poolSystem sampleArea).Reachable (fun s action => action.KeepsCount s) s ∧
      s.mp.suspendThread = [secondThread] ∧ CountIntact sampleArea s := by
  have hrun : (sampleRun (fun s action => action.KeepsCount s)
      [.alloc (some firstThread) 0, .alloc (some secondThread) 10,
        .alloc (some thirdThread) (-1), .detachTest, .free 0x20000000,
        .alloc (some firstThread) 0, .alloc (some firstThread) 5, .detachResume]).map
        (fun s => s.mp.suspendThread) = some [secondThread] := by decide +kernel
  rcases map_eq_some_iff.mp hrun with ⟨s, hs, hlist⟩
  have hreach := reachable_sampleRun hs
  exact ⟨s, hreach, hlist, countIntact_of_reachable sampleArea hreach⟩

/-- A thread whose wait times out stays in `suspend_thread_count`. -/
theorem not_countIntact_of_timeout :
    ∃ s, (poolSystem sampleArea).Reachable (fun _ _ => True) s ∧ ¬CountIntact sampleArea s := by
  have hrun : (sampleRun (fun _ _ => True)
      [.alloc (some firstThread) 0, .alloc (some secondThread) 10, .timeout secondThread]).map
        (fun s => (s.mp.suspendThreadCount, s.mp.suspendThread)) = some (1, []) := by
    decide +kernel
  rcases map_eq_some_iff.mp hrun with ⟨s, hs, hfields⟩
  refine ⟨s, reachable_sampleRun hs, ?_⟩
  intro hintact
  have hcount := hintact.count_eq
  rw [Prod.mk.injEq] at hfields
  rw [hfields.1, hfields.2] at hcount
  cases hcount

end RtThread.MemPool
