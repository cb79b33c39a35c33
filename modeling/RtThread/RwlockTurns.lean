import RtThread.RwlockConds

/-!
# Whose turn it is

Behind `pthread_rwlock_unlock` a free lock has a wake-up on its way when writers wait: a
signal reaches a suspended writer, or leaves a token for one which is about to be suspended.
When no writer waits, the readers have been woken.  The turn is lost when the last waiting
writer gives up after that.
-/

namespace RtThread.Rwlock

open Function RwlockState TransitionSystem

open Cond (CondState Wait)

variable {κ : Type}

/-- Some thread is about to come back from a wait: it has been resumed, its time is over, or it
will find a token. -/
def ComesBack (c : CondState κ) : Prop :=
  ∃ t, (∃ result, c.waits t = .taken result) ∨ c.waits t = .released ∧ 0 < c.value

def Pending (s : LockState κ) : Prop := ∃ side, ComesBack (s.conds side)

/-- While the lock is free and nobody is on the way, nobody waits. -/
def NoneStranded (s : LockState κ) : Prop :=
  s.lock.owner = none → s.lock.rwRefcount = 0 → ¬Pending s →
    ∀ t call, (s.lock.threads t).phase ≠ .waiting call

/-- A lock reported as busy is not changed. -/
def DestroyKeeps [DecidableEq κ] (s : LockState κ) (t : κ) : Prop :=
  (s.pthreadRwlockDestroy t).1 = EBUSY → (s.pthreadRwlockDestroy t).2 = s

/-- A lock is not destroyed while it is busy.  A call which fails does not leave a free lock
without waiting writers to readers which nobody has woken, and the count of a condition does
not overflow. -/
def TurnPassed (s : LockState κ) : LockAction κ → Prop
  | .destroy _ => ¬s.Busy
  | .leave _ _ result =>
    result ≠ 0 → s.lock.rwRefcount = 0 → s.lock.rwNwaitwriters = 0 →
      0 < s.lock.rwNwaitreaders → Pending s
  | .test _ .unlock =>
    0 < s.lock.rwNwaitwriters → RwlockState.releaseCount s.lock.rwRefcount = 0 →
        (s.conds .writers).suspendThread ≠ [] ∨ (s.conds .writers).value < 65535
  | _ => True

/-! ## Waits of a condition -/

section Conds

variable [DecidableEq κ] {c : CondState κ} {t u : κ}

def WakeOnWay (c : CondState κ) : Prop :=
  (∃ t, c.waits t = .taken Cond.RT_EOK) ∨ 0 < c.value ∨
    ∀ t, c.waits t ≠ .released ∧ c.waits t ≠ .suspended

theorem setWait_eq_outside_iff {wait : Wait} (hbefore : c.waits t ≠ .outside)
    (hafter : wait ≠ .outside) : (c.setWait t wait).waits u = .outside ↔ c.waits u = .outside := by
  by_cases hut : u = t
  · subst hut
    rw [CondState.setWait_self]
    exact iff_of_false hafter hbefore
  · rw [CondState.setWait_of_ne _ hut]

theorem rtSemTake_eq_outside_iff (ht : c.waits t = .released) :
    (c.rtSemTake t).waits u = .outside ↔ c.waits u = .outside := by
  have hbefore : c.waits t ≠ .outside := by
    rw [ht]
    exact Wait.noConfusion
  rcases Nat.eq_zero_or_pos c.value with hzero | hpos
  · rw [CondState.rtSemTake_of_zero t hzero]
    exact setWait_eq_outside_iff hbefore Wait.noConfusion
  · rw [CondState.rtSemTake_of_pos t hpos]
    exact setWait_eq_outside_iff hbefore Wait.noConfusion

theorem rtSemRelease_eq_outside_iff (hlinked : c.Linked) :
    c.rtSemRelease.waits u = .outside ↔ c.waits u = .outside := by
  cases hqueue : c.suspendThread with
  | nil => rw [CondState.rtSemRelease_of_nil hqueue]
  | cons t rest =>
    have ht : c.waits t = .suspended := (hlinked.mem_iff t).mp (by simp [hqueue])
    rw [CondState.rtSemRelease_of_cons hqueue]
    exact setWait_eq_outside_iff (by rw [ht]; exact Wait.noConfusion) Wait.noConfusion

theorem broadcast_eq_outside_iff (hlinked : c.Linked) :
    c.pthreadCondBroadcast.waits u = .outside ↔ c.waits u = .outside := by
  obtain ⟨-, -, -, hwaits⟩ := CondState.pthreadCondBroadcast_spec hlinked
  rw [hwaits]
  split_ifs with hsuspended
  · simp [hsuspended]
  · rfl

theorem WakeOnWay.rtSemTake (hway : WakeOnWay c) (ht : c.waits t = .released) :
    WakeOnWay (c.rtSemTake t) := by
  rcases Nat.eq_zero_or_pos c.value with hzero | hpos
  · rw [CondState.rtSemTake_of_zero t hzero]
    rcases hway with ⟨u, hu⟩ | hpos | hnone
    · have hut : u ≠ t := by
        rintro rfl
        nomatch ht.symm.trans hu
      exact .inl ⟨u, (CondState.setWait_of_ne _ hut).trans hu⟩
    · exact absurd hzero hpos.ne'
    · exact absurd ht (hnone t).1
  · rw [CondState.rtSemTake_of_pos t hpos]
    exact .inl ⟨t, CondState.setWait_self _ _ _⟩

theorem WakeOnWay.setWait {wait : Wait} (hway : WakeOnWay c)
    (hbefore : c.waits t ≠ .taken Cond.RT_EOK)
    (hafter : wait ≠ .released ∧ wait ≠ .suspended) : WakeOnWay (c.setWait t wait) := by
  rcases hway with ⟨u, hu⟩ | hpos | hnone
  · have hut : u ≠ t := by
      rintro rfl
      exact hbefore hu
    exact .inl ⟨u, (CondState.setWait_of_ne _ hut).trans hu⟩
  · exact .inr (.inl hpos)
  · refine .inr (.inr fun u => ?_)
    by_cases hut : u = t
    · subst hut
      rw [CondState.setWait_self]
      exact hafter
    · rw [CondState.setWait_of_ne _ hut]
      exact hnone u

theorem wakeOnWay_signal (hroom : c.suspendThread ≠ [] ∨ c.value < 65535) :
    WakeOnWay c.pthreadCondSignal := by
  unfold CondState.pthreadCondSignal
  cases hqueue : c.suspendThread with
  | nil =>
    have hvalue := hroom.resolve_left (not_not_intro hqueue)
    rw [CondState.rtSemRelease_of_nil hqueue]
    refine .inr (.inl ?_)
    change 0 < (c.value + 1) % 65536
    omega
  | cons t rest =>
    rw [CondState.rtSemRelease_of_cons hqueue]
    exact .inl ⟨t, CondState.setWait_self _ _ _⟩

end Conds

/-! ## The invariant -/

def WriterInside (s : RwlockState κ) : Prop :=
  ∃ t call, call.writes = true ∧
    ((s.threads t).phase = .testing call ∨ (s.threads t).phase = .woken call 0)

def Phase.Undecided : Phase → Prop
  | .testing _ => True
  | .woken _ _ => True
  | .leaving _ result => result ≠ 0
  | _ => False

def ReaderWaits (s : RwlockState κ) : Prop :=
  ∃ t call, (s.threads t).phase = .waiting call ∧ call.reads = true

structure LockPlaces [Fintype κ] (s : LockState κ) : Prop where
  counts : RwlockInv s.lock
  linked : ∀ side, (s.conds side).Linked
  places : ∀ t side, (s.conds side).waits t ≠ .outside ↔
    ∃ call, (s.lock.threads t).phase = .waiting call ∧ call.side = side

/-- On a free lock a wake-up is on its way to whoever waits. -/
structure LockInv [Fintype κ] (s : LockState κ) : Prop extends LockPlaces s where
  writers : s.lock.rwRefcount = 0 → WakeOnWay (s.conds .writers) ∨ WriterInside s.lock
  readers : s.lock.rwRefcount = 0 → s.lock.rwNwaitwriters = 0 → ReaderWaits s.lock →
    Pending s ∨ ∃ t, (s.lock.threads t).phase.Undecided

section Counts

variable [Fintype κ] {s : RwlockState κ} {t : κ} {call : Call}

theorem counted_nonneg (kind : Call → Bool) (phase : Phase) : 0 ≤ phase.counted kind := by
  unfold Phase.counted
  split
  · split_ifs <;> decide
  · split_ifs <;> decide
  · exact le_rfl

theorem one_le_total_counted {kind : Call → Bool} (hphase : (s.threads t).phase = .waiting call)
    (hkind : kind call = true) : 1 ≤ total (·.phase.counted kind) s.threads := by
  have hle := weight_le_total (fun l => counted_nonneg kind l.phase) s.threads t
  have hone : (s.threads t).phase.counted kind = 1 := by
    rw [hphase, Phase.counted, if_pos hkind]
  change (s.threads t).phase.counted kind ≤ _ at hle
  rwa [hone] at hle

section

variable (hinv : RwlockInv s)
include hinv

theorem RwlockInv.rwNwaitreaders_pos
    (hphase : (s.threads t).phase = .waiting call) (hreads : call.reads = true) :
    0 < s.rwNwaitreaders := by
  rw [hinv.waitreaders]
  exact one_le_total_counted hphase hreads

theorem RwlockInv.rwNwaitwriters_pos
    (hphase : (s.threads t).phase = .waiting call) (hwrites : call.writes = true) :
    0 < s.rwNwaitwriters := by
  rw [hinv.waitwriters]
  exact one_le_total_counted hphase hwrites

theorem RwlockInv.rwNwaitwriters_nonneg : 0 ≤ s.rwNwaitwriters := by
  rw [hinv.waitwriters]
  exact total_nonneg (fun l => counted_nonneg Call.writes l.phase) s.threads

theorem RwlockInv.exists_waiting {kind : Call → Bool}
    (hfree : s.owner = none) (hpos : 0 < total (·.phase.counted kind) s.threads) :
    ∃ t call, (s.threads t).phase = .waiting call ∧ kind call = true := by
  obtain ⟨t, -, ht⟩ := Finset.exists_ne_zero_of_sum_ne_zero hpos.ne'
  have howned := hinv.owned t
  rw [hfree] at howned
  change (s.threads t).phase.counted kind ≠ 0 at ht
  refine ⟨t, ?_⟩
  generalize (s.threads t).phase = phase at ht howned ⊢
  cases phase with
  | waiting call => exact ⟨call, rfl, by simpa [Phase.counted] using ht⟩
  | woken call result => cases howned.mp rfl
  | _ => contradiction

theorem RwlockInv.writes_of_waiting
    (hphase : (s.threads t).phase = .waiting call) (hreads : call.reads = false) :
    call.writes = true := by
  have hvalid := hinv.valid t
  rw [ThreadState.Valid, hphase] at hvalid
  cases call <;> first | rfl | exact absurd rfl hvalid | cases hreads

end

end Counts

theorem LockPlaces.pending_of_wakeOnWay [Fintype κ] {s : LockState κ} {side : Side} {t : κ}
    (hinv : LockPlaces s) (hway : WakeOnWay (s.conds side))
    (ht : (s.conds side).waits t ≠ .outside) : Pending s := by
  rcases hway with ⟨u, hu⟩ | hpos | hnone
  · exact ⟨side, u, .inl ⟨_, hu⟩⟩
  · have hqueue := (hinv.linked side).suspendThread_eq_nil hpos
    have hout : (s.conds side).waits t ≠ .suspended := by
      rw [ne_eq, ← (hinv.linked side).mem_iff, hqueue]
      exact List.not_mem_nil
    cases hplace : (s.conds side).waits t with
    | outside => contradiction
    | released => exact ⟨side, t, .inr ⟨hplace, hpos⟩⟩
    | suspended => contradiction
    | taken result => exact ⟨side, t, .inl ⟨result, hplace⟩⟩
  · cases hplace : (s.conds side).waits t with
    | outside => contradiction
    | released => exact absurd hplace (hnone t).1
    | suspended => exact absurd hplace (hnone t).2
    | taken result => exact ⟨side, t, .inl ⟨result, hplace⟩⟩

theorem LockInv.noneStranded [Fintype κ] {s : LockState κ} (hinv : LockInv s) :
    NoneStranded s := by
  intro hfree hcount hnone t call hphase
  have hout : ∀ u, (s.lock.threads u).phase.inside = false := by
    intro u
    have howned := hinv.counts.owned u
    rw [hfree] at howned
    simpa using howned
  have hwriter : ∀ t call, (s.lock.threads t).phase = .waiting call → call.writes = true →
      Pending s := by
    intro t call hphase hwrites
    have hside : call.side = .writers := by cases call <;> first | rfl | cases hwrites
    have hplace := (hinv.places t .writers).mpr ⟨call, hphase, hside⟩
    rcases hinv.writers hcount with hway | ⟨u, call', -, hu | hu⟩
    · exact hinv.toLockPlaces.pending_of_wakeOnWay hway hplace
    · exact absurd (hout u) (by simp [hu, Phase.inside])
    · exact absurd (hout u) (by simp [hu, Phase.inside])
  cases hreads : call.reads with
  | false => exact hnone (hwriter t call hphase (hinv.counts.writes_of_waiting hphase hreads))
  | true =>
    rcases hinv.counts.rwNwaitwriters_nonneg.lt_or_eq with hpos | hzero
    · obtain ⟨u, call', hu, hwrites⟩ := hinv.counts.exists_waiting hfree (hinv.counts.waitwriters ▸ hpos)
      exact hnone (hwriter u call' hu hwrites)
    · rcases hinv.readers hcount hzero.symm ⟨t, call, hphase, hreads⟩ with hpending | ⟨u, hu⟩
      · exact hnone hpending
      · have hu' := hout u
        generalize (s.lock.threads u).phase = phase at hu hu'
        cases phase <;> first | exact hu | cases hu'

/-! ## Steps outside the waits -/

section Steps

variable [DecidableEq κ] [Fintype κ] {s : LockState κ} {lock' : RwlockState κ} {t : κ}
  {l : ThreadState} {call : Call} {result : ℤ}

omit [Fintype κ] in
theorem readerWaits_of_update (hthreads : lock'.threads = update s.lock.threads t l)
    (hafter : ∀ call, l.phase ≠ .waiting call) (hwaits : ReaderWaits lock') :
    ReaderWaits s.lock := by
  obtain ⟨u, call, hu, hreads⟩ := hwaits
  rw [hthreads] at hu
  by_cases hut : u = t
  · rw [hut, update_self] at hu
    exact absurd hu (hafter call)
  · rw [update_of_ne hut] at hu
    exact ⟨u, call, hu, hreads⟩

omit [Fintype κ] in
theorem undecided_of_update (hthreads : lock'.threads = update s.lock.threads t l)
    (hkept : (s.lock.threads t).phase.Undecided → l.phase.Undecided)
    (hundecided : ∃ u, (s.lock.threads u).phase.Undecided) :
    ∃ u, (lock'.threads u).phase.Undecided := by
  obtain ⟨u, hu⟩ := hundecided
  rw [hthreads]
  by_cases hut : u = t
  · exact ⟨t, by rw [update_self]; exact hkept (hut ▸ hu)⟩
  · exact ⟨u, by rwa [update_of_ne hut]⟩

omit [Fintype κ] in
theorem writerInside_of_update (hthreads : lock'.threads = update s.lock.threads t l)
    (hkept : ∀ call, call.writes = true →
      (s.lock.threads t).phase = .testing call ∨ (s.lock.threads t).phase = .woken call 0 →
      l.phase = .testing call ∨ l.phase = .woken call 0)
    (hinside : WriterInside s.lock) : WriterInside lock' := by
  obtain ⟨u, call, hwrites, hu⟩ := hinside
  by_cases hut : u = t
  · refine ⟨t, call, hwrites, ?_⟩
    rw [hthreads, update_self]
    exact hkept call hwrites (hut ▸ hu)
  · refine ⟨u, call, hwrites, ?_⟩
    rwa [hthreads, update_of_ne hut]

omit [Fintype κ] in
theorem places_of_update {side : Side} {u : κ}
    (hthreads : lock'.threads = update s.lock.threads t l)
    (hbefore : ∀ call, (s.lock.threads t).phase ≠ .waiting call)
    (hafter : ∀ call, l.phase ≠ .waiting call) :
    (∃ call, (lock'.threads u).phase = .waiting call ∧ call.side = side) ↔
      ∃ call, (s.lock.threads u).phase = .waiting call ∧ call.side = side := by
  rw [hthreads]
  by_cases hut : u = t
  · rw [hut, update_self]
    exact iff_of_false (fun ⟨call, h, _⟩ => hafter call h) fun ⟨call, h, _⟩ => hbefore call h
  · rw [update_of_ne hut]

theorem LockPlaces.of_lock (hinv : LockPlaces s) (hcounts : RwlockInv lock')
    (hthreads : lock'.threads = update s.lock.threads t l)
    (hbefore : ∀ call, (s.lock.threads t).phase ≠ .waiting call)
    (hafter : ∀ call, l.phase ≠ .waiting call) : LockPlaces { s with lock := lock' } where
  counts := hcounts
  linked := hinv.linked
  places u side := (hinv.places u side).trans (places_of_update hthreads hbefore hafter).symm

section

variable (hinv : LockInv s)
include hinv

theorem LockInv.of_lock (hcounts : RwlockInv lock')
    (hthreads : lock'.threads = update s.lock.threads t l)
    (hbefore : ∀ call, (s.lock.threads t).phase ≠ .waiting call)
    (hafter : ∀ call, l.phase ≠ .waiting call) (hcount : lock'.rwRefcount = s.lock.rwRefcount)
    (hwriter : ∀ call, call.writes = true →
      (s.lock.threads t).phase = .testing call ∨ (s.lock.threads t).phase = .woken call 0 →
      l.phase = .testing call ∨ l.phase = .woken call 0)
    (hreader : s.lock.rwRefcount = 0 → lock'.rwNwaitwriters = 0 → ReaderWaits s.lock →
      Pending s ∨ ∃ u, (lock'.threads u).phase.Undecided) : LockInv { s with lock := lock' } where
  toLockPlaces := hinv.toLockPlaces.of_lock hcounts hthreads hbefore hafter
  writers hzero := (hinv.writers (hcount.symm.trans hzero)).imp_right
    (writerInside_of_update hthreads hwriter)
  readers hzero hnone hwaits := hreader (hcount.symm.trans hzero) hnone
    (readerWaits_of_update hthreads hafter hwaits)

theorem LockInv.enter (henabled : LockAction.Enabled s (.enter t call)) :
    LockInv (lockExecute s (.enter t call)) := by
  have hphase : (s.lock.threads t).phase = .outside := henabled.2.1
  refine hinv.of_lock (t := t) (hinv.counts.enter henabled.2) rfl ?_ ?_ rfl ?_ ?_
  · simp [hphase]
  · simp
  · simp [hphase]
  · intro hzero hnone hwaits
    exact (hinv.readers hzero hnone hwaits).imp_right
      (undecided_of_update rfl fun h => absurd h (by rw [hphase]; exact not_false))

theorem LockInv.lock (henabled : LockAction.Enabled s (.lock t call)) :
    LockInv (lockExecute s (.lock t call)) := by
  have hphase : (s.lock.threads t).phase = .locking call := henabled.2.1
  refine hinv.of_lock (t := t) (hinv.counts.lock henabled.2) rfl ?_ ?_ rfl ?_ ?_
  · simp [hphase]
  · simp
  · simp [hphase]
  · intro _ _ _
    refine .inr ⟨t, ?_⟩
    simp [execute, setPhase, setThread, Phase.Undecided]

theorem LockInv.deadlock (henabled : LockAction.Enabled s (.deadlock t call)) :
    LockInv (lockExecute s (.deadlock t call)) := by
  have howned := (hinv.counts.owned t).mpr henabled.2.2
  rw [henabled.2.1] at howned
  cases howned

theorem LockInv.countOut (henabled : LockAction.Enabled s (.countOut t call result)) :
    LockInv (lockExecute s (.countOut t call result)) := by
  have hphase : (s.lock.threads t).phase = .woken call result := henabled.2
  have hcounts := hinv.counts.countOut henabled.2
  rw [lockExecute]
  rw [execute, countOut_eq] at hcounts ⊢
  refine hinv.of_lock (t := t) hcounts rfl ?_ ?_ rfl ?_ ?_
  · simp [hphase]
  · intro call'
    split_ifs <;> simp
  · intro call' _ hinside
    rw [hphase] at hinside
    obtain ⟨rfl, rfl⟩ : call = call' ∧ result = 0 := by simpa using hinside
    exact .inl (by simp)
  · intro _ _ _
    refine .inr ⟨t, ?_⟩
    simp only [setPhase, setThread, update_self]
    split_ifs with hresult
    · exact hresult
    · trivial

theorem LockInv.leave (hguard : TurnPassed s (.leave t call result))
    (henabled : LockAction.Enabled s (.leave t call result)) :
    LockInv (lockExecute s (.leave t call result)) := by
  have hphase : (s.lock.threads t).phase = .leaving call result := henabled.2
  refine hinv.of_lock (t := t) (hinv.counts.leave henabled.2) rfl ?_ ?_ rfl ?_ ?_
  · simp [hphase]
  · simp [ThreadState.returned]
  · simp [hphase]
  · intro hzero hnone hwaits
    by_cases hresult : result = 0
    · refine (hinv.readers hzero hnone hwaits).imp_right
        (undecided_of_update rfl fun h => absurd h ?_)
      rw [hphase]
      exact not_not_intro hresult
    · obtain ⟨u, call', hu, hreads⟩ := hwaits
      exact .inl (hguard hresult hzero hnone (hinv.counts.rwNwaitreaders_pos hu hreads))

end

/-! ## Steps inside the waits -/

omit [DecidableEq κ] [Fintype κ] in
theorem conds_setCond (s : LockState κ) (side : Side) (c : CondState κ) :
    (s.setCond side c).conds side = c := update_self ..

omit [DecidableEq κ] [Fintype κ] in
theorem conds_setCond_of_ne {side side' : Side} (c : CondState κ) (hne : side' ≠ side) :
    (s.setCond side c).conds side' = s.conds side' := update_of_ne hne ..

omit [DecidableEq κ] in
theorem LockPlaces.of_cond {side : Side} {c : CondState κ} (hinv : LockPlaces s)
    (hlinked : c.Linked)
    (houtside : ∀ u, c.waits u = .outside ↔ (s.conds side).waits u = .outside) :
    LockPlaces (s.setCond side c) where
  counts := hinv.counts
  linked side' := by
    by_cases hside : side' = side
    · rw [hside, conds_setCond]
      exact hlinked
    · rw [conds_setCond_of_ne c hside]
      exact hinv.linked side'
  places u side' := by
    by_cases hside : side' = side
    · rw [hside, conds_setCond, ne_eq, houtside]
      exact hinv.places u side
    · rw [conds_setCond_of_ne c hside]
      exact hinv.places u side'

omit [DecidableEq κ] in
theorem LockInv.of_cond {side : Side} {c : CondState κ} (hinv : LockInv s) (hlinked : c.Linked)
    (houtside : ∀ u, c.waits u = .outside ↔ (s.conds side).waits u = .outside)
    (hway : side = .writers → WakeOnWay (s.conds .writers) → WakeOnWay c)
    (hpending : Pending s → Pending (s.setCond side c)) : LockInv (s.setCond side c) where
  toLockPlaces := hinv.toLockPlaces.of_cond hlinked houtside
  writers hzero := by
    refine (hinv.writers hzero).imp_left fun h => ?_
    by_cases hside : side = .writers
    · subst hside
      rw [conds_setCond]
      exact hway rfl h
    · rw [conds_setCond_of_ne c (Ne.symm hside)]
      exact h
  readers hzero hnone hwaits := (hinv.readers hzero hnone hwaits).imp_left hpending

omit [DecidableEq κ] [Fintype κ] in
theorem Pending.setCond {side : Side} {c : CondState κ} (hpending : Pending s)
    (hkept : ComesBack (s.conds side) → ComesBack c) : Pending (s.setCond side c) := by
  obtain ⟨side', hback⟩ := hpending
  refine ⟨side', ?_⟩
  by_cases hside : side' = side
  · subst hside
    rw [conds_setCond]
    exact hkept hback
  · rw [conds_setCond_of_ne c hside]
    exact hback

omit [Fintype κ] in
theorem ComesBack.rtSemTake {c : CondState κ} (hback : ComesBack c)
    (ht : c.waits t = .released) : ComesBack (c.rtSemTake t) := by
  rcases Nat.eq_zero_or_pos c.value with hzero | hpos
  · obtain ⟨u, ⟨result, hu⟩ | ⟨-, hpos⟩⟩ := hback
    · have hut : u ≠ t := by
        rintro rfl
        nomatch ht.symm.trans hu
      rw [CondState.rtSemTake_of_zero t hzero]
      exact ⟨u, .inl ⟨result, (CondState.setWait_of_ne _ hut).trans hu⟩⟩
    · exact absurd hzero hpos.ne'
  · rw [CondState.rtSemTake_of_pos t hpos]
    exact ⟨t, .inl ⟨_, CondState.setWait_self _ _ _⟩⟩

theorem LockInv.take (hinv : LockInv s) (henabled : LockAction.Enabled s (.take t call)) :
    LockInv (lockExecute s (.take t call)) := by
  have ht : (s.conds call.side).waits t = .released := henabled.2.2
  refine hinv.of_cond ((hinv.linked call.side).rtSemTake ht)
    (fun u => rtSemTake_eq_outside_iff ht) ?_ ?_
  · intro hside hway
    rw [← hside] at hway
    exact hway.rtSemTake ht
  · intro hpending
    exact hpending.setCond fun hback => hback.rtSemTake ht

theorem LockInv.timeout (hinv : LockInv s) (henabled : LockAction.Enabled s (.timeout t call)) :
    LockInv (lockExecute s (.timeout t call)) := by
  have ht : TimesOut (s.conds call.side) t := henabled.2.2.2
  have hout : (s.conds call.side).waits t ≠ .outside ∧
      (s.conds call.side).waits t ≠ .taken Cond.RT_EOK := by
    rcases ht with ht | ⟨ht, -⟩
    · simp [ht]
    · simp [ht]
  refine hinv.of_cond (hinv.linked call.side).timeout
    (fun u => setWait_eq_outside_iff hout.1 Wait.noConfusion) ?_ ?_
  · intro hside hway
    rw [← hside] at hway
    exact hway.setWait hout.2 ⟨Wait.noConfusion, Wait.noConfusion⟩
  · intro _
    refine ⟨call.side, t, .inl ⟨-Cond.RT_ETIMEOUT, ?_⟩⟩
    rw [conds_setCond]
    exact CondState.setWait_self _ _ _

omit [Fintype κ] in
theorem places_of_setWait {side : Side} {wait : Wait}
    (hplaces : ∀ u side', (s.conds side').waits u ≠ .outside ↔
      ∃ call, (s.lock.threads u).phase = .waiting call ∧ call.side = side')
    (hthreads : lock'.threads = update s.lock.threads t l)
    (hother : ∀ side', side' ≠ side → (s.conds side').waits t = .outside)
    (hplace : wait ≠ .outside ↔ ∃ call, l.phase = .waiting call ∧ call.side = side)
    (honly : ∀ call, l.phase = .waiting call → call.side = side) (u : κ) (side' : Side) :
    ((s.setCond side ((s.conds side).setWait t wait)).conds side').waits u ≠ .outside ↔
      ∃ call, (lock'.threads u).phase = .waiting call ∧ call.side = side' := by
  rw [hthreads]
  by_cases hut : u = t
  · subst hut
    rw [update_self]
    by_cases hside : side' = side
    · subst hside
      rw [conds_setCond, CondState.setWait_self]
      exact hplace
    · rw [conds_setCond_of_ne _ hside, hother side' hside]
      refine iff_of_false (not_not_intro rfl) fun ⟨call, hcall, hcallSide⟩ => hside ?_
      rw [← hcallSide, honly call hcall]
  · rw [update_of_ne hut, ← hplaces u side']
    by_cases hside : side' = side
    · subst hside
      rw [conds_setCond, CondState.setWait_of_ne _ hut]
    · rw [conds_setCond_of_ne _ hside]

omit [DecidableEq κ] in
theorem LockPlaces.linked_setCond {side side' : Side} {c : CondState κ} (hinv : LockPlaces s)
    (hlinked : c.Linked) : ((s.setCond side c).conds side').Linked := by
  by_cases hside : side' = side
  · rw [hside, conds_setCond]
    exact hlinked
  · rw [conds_setCond_of_ne c hside]
    exact hinv.linked side'

theorem LockPlaces.wake (hinv : LockPlaces s)
    (henabled : LockAction.Enabled s (.wake t call result)) :
    LockPlaces (lockExecute s (.wake t call result)) := by
  obtain ⟨-, hwake, ht⟩ := henabled
  have hphase : (s.lock.threads t).phase = .waiting call := hwake.1
  have hout : (s.conds call.side).waits t ≠ .suspended := by
    rw [ht]
    exact Wait.noConfusion
  refine ⟨hinv.counts.wake hwake, fun side' => ?_, ?_⟩
  · exact hinv.linked_setCond ((hinv.linked call.side).setWait _ hout Wait.noConfusion)
  · refine places_of_setWait hinv.places rfl (fun side' hside => ?_) ?_ ?_
    · by_contra hplace
      obtain ⟨call', hcall, hcallSide⟩ := (hinv.places t side').mp hplace
      rw [hphase] at hcall
      exact hside (Phase.waiting.inj hcall ▸ hcallSide.symm)
    · simp
    · simp

theorem LockInv.wake (hinv : LockInv s) (henabled : LockAction.Enabled s (.wake t call result)) :
    LockInv (lockExecute s (.wake t call result)) := by
  refine ⟨hinv.toLockPlaces.wake henabled, fun hzero => ?_, fun _ _ _ => .inr ⟨t, ?_⟩⟩
  · obtain ⟨-, hwake, ht⟩ := henabled
    have hphase : (s.lock.threads t).phase = .waiting call := hwake.1
    rcases hinv.writers hzero with hway | hinside
    · by_cases hside : call.side = .writers
      · by_cases hresult : result = Cond.RT_EOK
        · have hreads : call.reads = false := by
            cases call <;> first | rfl | cases hside
          refine .inr ⟨t, call, hinv.counts.writes_of_waiting hphase hreads, .inr ?_⟩
          rw [hresult]
          simp [lockExecute, execute, setPhase, setThread, Call.waitResult]
        · left
          change WakeOnWay ((s.setCond call.side _).conds .writers)
          rw [hside, conds_setCond]
          rw [hside] at ht
          refine hway.setWait ?_ ⟨Wait.noConfusion, Wait.noConfusion⟩
          rw [ht]
          exact fun h => hresult (Wait.taken.inj h)
      · left
        change WakeOnWay ((s.setCond call.side _).conds .writers)
        rw [conds_setCond_of_ne _ (Ne.symm hside)]
        exact hway
    · refine .inr (writerInside_of_update rfl (fun call' _ h => absurd h ?_) hinside)
      rw [hphase]
      simp
  · simp [lockExecute, execute, setPhase, setThread, Phase.Undecided]

/-! ## The tests -/

omit [Fintype κ] in
theorem threads_test {s : RwlockState κ} (hcall : call ≠ .unlock) :
    ∃ phase, (s.test t call).threads =
        update s.threads t { s.threads t with phase := phase } ∧
      (phase = .waiting call ∨ ∃ result, phase = .leaving call result) := by
  cases call <;> unfold test
  case rdlock | timedrdlock =>
    unfold testRdlock
    split_ifs
    · exact ⟨_, rfl, .inl rfl⟩
    · exact ⟨_, rfl, .inr ⟨_, rfl⟩⟩
  case wrlock | timedwrlock =>
    unfold testWrlock
    split_ifs
    · exact ⟨_, rfl, .inl rfl⟩
    · exact ⟨_, rfl, .inr ⟨_, rfl⟩⟩
  case tryrdlock =>
    unfold testTryrdlock
    split_ifs <;> exact ⟨_, rfl, .inr ⟨_, rfl⟩⟩
  case trywrlock =>
    unfold testTrywrlock
    split_ifs <;> exact ⟨_, rfl, .inr ⟨_, rfl⟩⟩
  case unlock => contradiction

omit [Fintype κ] in
theorem blocked_of_testRdlock {s : RwlockState κ} (hzero : (s.testRdlock t call).rwRefcount = 0) :
    s.rwRefcount = 0 ∧ (s.testRdlock t call).rwNwaitwriters = s.rwNwaitwriters ∧
      0 < s.rwNwaitwriters := by
  unfold testRdlock at hzero ⊢
  by_cases hblocked : s.ReadBlocked
  · rw [if_pos hblocked] at hzero ⊢
    have hfree : s.rwRefcount = 0 := hzero
    exact ⟨hfree, rfl, hblocked.resolve_left (by omega)⟩
  · rw [if_neg hblocked] at hzero
    have hcount : s.rwRefcount + 1 = 0 := hzero
    exact absurd (.inl (by omega)) hblocked

omit [Fintype κ] in
theorem blocked_of_testTryrdlock {s : RwlockState κ} (hzero : (s.testTryrdlock t).rwRefcount = 0) :
    s.rwRefcount = 0 ∧ (s.testTryrdlock t).rwNwaitwriters = s.rwNwaitwriters ∧
      0 < s.rwNwaitwriters := by
  unfold testTryrdlock at hzero ⊢
  by_cases hblocked : s.ReadBlocked
  · rw [if_pos hblocked] at hzero ⊢
    have hfree : s.rwRefcount = 0 := hzero
    exact ⟨hfree, rfl, hblocked.resolve_left (by omega)⟩
  · rw [if_neg hblocked] at hzero
    have hcount : s.rwRefcount + 1 = 0 := hzero
    exact absurd (.inl (by omega)) hblocked

omit [Fintype κ] in
theorem testWrlock_ne_zero (s : RwlockState κ) : (s.testWrlock t call).rwRefcount ≠ 0 := by
  unfold testWrlock
  split_ifs with hheld
  · exact hheld
  · exact (by decide : (-1 : ℤ) ≠ 0)

omit [Fintype κ] in
theorem testTrywrlock_ne_zero (s : RwlockState κ) : (s.testTrywrlock t).rwRefcount ≠ 0 := by
  unfold testTrywrlock
  split_ifs with hheld
  · exact hheld
  · exact (by decide : (-1 : ℤ) ≠ 0)

omit [Fintype κ] in
theorem blocked_of_free {s : RwlockState κ} (hcall : call ≠ .unlock)
    (hzero : (s.test t call).rwRefcount = 0) :
    s.rwRefcount = 0 ∧ (s.test t call).rwNwaitwriters = s.rwNwaitwriters ∧
      0 < s.rwNwaitwriters ∧ call.reads = true := by
  cases call with
  | rdlock | timedrdlock =>
    obtain ⟨hfree, hsame, hpos⟩ := blocked_of_testRdlock hzero
    exact ⟨hfree, hsame, hpos, rfl⟩
  | tryrdlock =>
    obtain ⟨hfree, hsame, hpos⟩ := blocked_of_testTryrdlock hzero
    exact ⟨hfree, hsame, hpos, rfl⟩
  | wrlock | timedwrlock => exact absurd hzero (testWrlock_ne_zero s)
  | trywrlock => exact absurd hzero (testTrywrlock_ne_zero s)
  | unlock => contradiction

omit [DecidableEq κ] in
theorem LockPlaces.outside_of_testing {side : Side} (hinv : LockPlaces s)
    (hphase : (s.lock.threads t).phase = .testing call) : (s.conds side).waits t = .outside := by
  by_contra hplace
  obtain ⟨call', hcall, -⟩ := (hinv.places t side).mp hplace
  rw [hphase] at hcall
  cases hcall

theorem LockPlaces.testLock (hinv : LockPlaces s)
    (henabled : LockAction.Enabled s (.test t call)) (hcall : call ≠ .unlock) :
    LockPlaces (s.test t call) := by
  have hphase : (s.lock.threads t).phase = .testing call := henabled.2
  have hcounts := hinv.counts.test henabled.2
  obtain ⟨phase, hthreads, hnext⟩ := threads_test (s := s.lock) (t := t) hcall
  unfold LockState.test
  rw [if_neg hcall]
  rcases hnext with rfl | ⟨result, rfl⟩
  · have hwaits : ((s.lock.test t call).threads t).phase = .waiting call := by
      rw [hthreads, update_self]
    have hout : (s.conds call.side).waits t ≠ .suspended := by
      rw [hinv.outside_of_testing hphase]
      exact Wait.noConfusion
    rw [if_pos hwaits]
    refine ⟨hcounts, fun side' => ?_, ?_⟩
    · exact hinv.linked_setCond ((hinv.linked call.side).setWait _ hout Wait.noConfusion)
    · refine places_of_setWait (s := s) hinv.places hthreads
        (fun side' _ => hinv.outside_of_testing hphase) ?_ ?_
      · exact iff_of_true Wait.noConfusion ⟨call, rfl, rfl⟩
      · intro call' h
        rw [← Phase.waiting.inj h]
  · have hleaves : ((s.lock.test t call).threads t).phase ≠ .waiting call := by
      rw [hthreads, update_self]
      exact Phase.noConfusion
    rw [if_neg hleaves]
    exact hinv.of_lock hcounts hthreads (by simp [hphase]) (by simp)

omit [Fintype κ] in
theorem conds_writers_test (hcall : call ≠ .unlock) (hreads : call.reads = true) :
    (s.test t call).conds .writers = s.conds .writers := by
  have hside : Side.writers ≠ call.side := by
    rw [Call.side, if_pos hreads]
    exact Side.noConfusion
  unfold LockState.test
  rw [if_neg hcall]
  split_ifs
  · exact conds_setCond_of_ne _ hside
  · rfl

omit [Fintype κ] in
theorem lock_test (hcall : call ≠ .unlock) : (s.test t call).lock = s.lock.test t call := by
  unfold LockState.test
  rw [if_neg hcall]
  split_ifs <;> rfl

theorem LockInv.testLock (hinv : LockInv s)
    (henabled : LockAction.Enabled s (.test t call)) (hcall : call ≠ .unlock) :
    LockInv (s.test t call) := by
  have hphase : (s.lock.threads t).phase = .testing call := henabled.2
  refine ⟨hinv.toLockPlaces.testLock henabled hcall, fun hzero => ?_, fun hzero hnone => ?_⟩
  · rw [lock_test hcall] at hzero ⊢
    obtain ⟨hfree, -, -, hreads⟩ := blocked_of_free hcall hzero
    rw [conds_writers_test hcall hreads]
    refine (hinv.writers hfree).imp_right fun hinside => ?_
    obtain ⟨phase, hthreads, -⟩ := threads_test (s := s.lock) (t := t) hcall
    refine writerInside_of_update hthreads (fun call' hwrites h => absurd hwrites ?_) hinside
    rw [hphase] at h
    obtain rfl : call = call' := by simpa using h
    cases call <;> first | decide | cases hreads
  · rw [lock_test hcall] at hzero hnone
    obtain ⟨-, hsame, hpos, -⟩ := blocked_of_free hcall hzero
    exact absurd (hsame.symm.trans hnone) hpos.ne'

/-! ## Unlocking -/

def LockState.released (s : LockState κ) (t : κ) : LockState κ :=
  { s with lock := s.lock.testUnlock t }

theorem LockPlaces.released (hinv : LockPlaces s)
    (henabled : LockAction.Enabled s (.test t .unlock)) : LockPlaces (s.released t) := by
  have hphase : (s.lock.threads t).phase = .testing .unlock := henabled.2
  exact hinv.of_lock (hinv.counts.testUnlock hphase) rfl (by simp [hphase]) (by simp)

omit [DecidableEq κ] in
theorem LockPlaces.wakeOnWay_of_none (hinv : LockPlaces s) (hnone : ¬0 < s.lock.rwNwaitwriters) :
    WakeOnWay (s.conds .writers) := by
  have houtside : ∀ t, (s.conds .writers).waits t = .outside := by
    intro t
    by_contra hplace
    obtain ⟨call, hcall, hside⟩ := (hinv.places t .writers).mp hplace
    have hreads : call.reads = false := by cases call <;> first | rfl | cases hside
    exact hnone (hinv.counts.rwNwaitwriters_pos hcall (hinv.counts.writes_of_waiting hcall hreads))
  refine .inr (.inr fun t => ?_)
  rw [houtside]
  exact ⟨Wait.noConfusion, Wait.noConfusion⟩

theorem LockPlaces.comesBack_broadcast (hinv : LockPlaces s) (hwaits : ReaderWaits s.lock) :
    ComesBack (s.conds .readers).pthreadCondBroadcast := by
  obtain ⟨u, call, hu, hreads⟩ := hwaits
  have hplace := (hinv.places u .readers).mpr ⟨call, hu, if_pos hreads⟩
  obtain ⟨-, -, hvalue, hafter⟩ := CondState.pthreadCondBroadcast_spec (hinv.linked .readers)
  refine ⟨u, ?_⟩
  rw [hafter, hvalue]
  cases hwait : (s.conds .readers).waits u with
  | outside => contradiction
  | released => exact .inr ⟨rfl, by omega⟩
  | suspended => exact .inl ⟨_, rfl⟩
  | taken result => exact .inl ⟨result, rfl⟩

theorem LockPlaces.passTurn (hinv : LockPlaces s)
    (hroom : 0 < s.lock.rwNwaitwriters → s.lock.rwRefcount = 0 →
      (s.conds .writers).suspendThread ≠ [] ∨ (s.conds .writers).value < 65535) :
    LockInv s.passTurn := by
  unfold LockState.passTurn
  split_ifs with hwriters hfree hreaders
  · refine ⟨hinv.of_cond (hinv.linked .writers).rtSemRelease
      (fun u => rtSemRelease_eq_outside_iff (hinv.linked .writers)), fun _ => .inl ?_, ?_⟩
    · rw [conds_setCond]
      exact wakeOnWay_signal (hroom hwriters hfree)
    · exact fun _ hnone => absurd hnone hwriters.ne'
  · exact ⟨hinv, fun hzero => absurd hzero hfree, fun hzero => absurd hzero hfree⟩
  · obtain ⟨hlinked, -, -, -⟩ := CondState.pthreadCondBroadcast_spec (hinv.linked .readers)
    refine ⟨hinv.of_cond hlinked (fun u => broadcast_eq_outside_iff (hinv.linked .readers)),
      fun _ => .inl ?_, fun _ _ hwaits => .inl ⟨.readers, ?_⟩⟩
    · rw [conds_setCond_of_ne _ Side.noConfusion]
      exact hinv.wakeOnWay_of_none hwriters
    · rw [conds_setCond]
      exact hinv.comesBack_broadcast hwaits
  · refine ⟨hinv, fun _ => .inl (hinv.wakeOnWay_of_none hwriters), fun _ _ hwaits => ?_⟩
    obtain ⟨u, call, hu, hreads⟩ := hwaits
    exact absurd (hinv.counts.rwNwaitreaders_pos hu hreads) hreaders

theorem LockInv.test (hinv : LockInv s) (hguard : TurnPassed s (.test t call))
    (henabled : LockAction.Enabled s (.test t call)) : LockInv (lockExecute s (.test t call)) := by
  by_cases hcall : call = .unlock
  · subst hcall
    exact (hinv.toLockPlaces.released henabled).passTurn hguard
  · exact hinv.testLock henabled hcall

/-! ## Destroying -/

omit [Fintype κ] in
theorem destroy_of_not_busy (hlinked : ∀ side, (s.conds side).Linked) (hfree : ¬s.Busy) :
    s.pthreadRwlockDestroy t = (0, { s with alive := false }) ∨
      s.pthreadRwlockDestroy t = (EBUSY, s) := by
  unfold LockState.pthreadRwlockDestroy
  rw [if_neg hfree]
  split_ifs with hreaders hwriters
  · exact .inl rfl
  · right
    rw [LockState.trytake, CondState.rtSemRelease_of_trytake (hlinked .readers) hreaders]
    unfold LockState.setCond
    rw [update_eq_self]
  · exact .inr rfl

omit [Fintype κ] in
theorem not_destroyKeeps_of_busy (howner : s.lock.owner = none) (hbusy : s.Busy) :
    ¬DestroyKeeps s t := by
  have hdestroy : s.pthreadRwlockDestroy t =
      (EBUSY, { s with lock := { s.lock with owner := some t } }) := if_pos hbusy
  intro hkeeps
  unfold DestroyKeeps at hkeeps
  rw [hdestroy] at hkeeps
  have hsame := congrArg (fun s => s.lock.owner) (hkeeps rfl)
  exact Option.some_ne_none t (hsame.trans howner)

omit [Fintype κ] in
/-- A destruction that fails leaves the lock alone exactly when the lock was not busy. -/
theorem destroyKeeps_iff (hlinked : ∀ side, (s.conds side).Linked)
    (howner : s.lock.owner = none) : DestroyKeeps s t ↔ ¬s.Busy := by
  constructor
  · exact fun hkeeps hbusy => not_destroyKeeps_of_busy howner hbusy hkeeps
  · intro hfree
    unfold DestroyKeeps
    rcases destroy_of_not_busy (t := t) hlinked hfree with h | h
    · rw [h]
      exact fun hresult : (0 : ℤ) = EBUSY => absurd hresult (by decide)
    · rw [h]
      exact fun _ => rfl

theorem LockInv.destroy (hinv : LockInv s) (hguard : TurnPassed s (.destroy t)) :
    LockInv (lockExecute s (.destroy t)) := by
  change LockInv (s.pthreadRwlockDestroy t).2
  rcases destroy_of_not_busy (t := t) hinv.linked hguard with h | h
  · rw [h]
    exact ⟨⟨hinv.counts, hinv.linked, hinv.places⟩, hinv.writers, hinv.readers⟩
  · rw [h]
    exact hinv

/-! ## Runs -/

/-- A step keeps a wake-up on its way where the turn is passed on. -/
theorem LockInv.step {s' : LockState κ} {action : LockAction κ} (hinv : LockInv s)
    (hguard : TurnPassed s action) (hstep : (lockSystem κ).step s action s') : LockInv s' := by
  obtain ⟨henabled, rfl⟩ := hstep
  cases action with
  | enter t call => exact hinv.enter henabled
  | lock t call => exact hinv.lock henabled
  | deadlock t call => exact hinv.deadlock henabled
  | test t call => exact hinv.test hguard henabled
  | take t call => exact hinv.take henabled
  | timeout t call => exact hinv.timeout henabled
  | wake t call result => exact hinv.wake henabled
  | countOut t call result => exact hinv.countOut henabled
  | leave t call result => exact hinv.leave hguard henabled
  | destroy t => exact hinv.destroy hguard

theorem lockInv_init (hinit : (lockSystem κ).init s) : LockInv s := by
  obtain ⟨hlock, -, hconds⟩ := hinit
  have hphase : ∀ t, (s.lock.threads t).phase = .outside := by
    intro t
    rw [hlock.2.2.2.2 t]
  refine ⟨⟨rwlockInv_init hlock, fun side => ⟨?_, fun t => ?_, fun hne => ?_, ?_⟩, ?_⟩, ?_, ?_⟩
  · rw [(hconds side).2.1]
    exact List.nodup_nil
  · simp [(hconds side).2.1, (hconds side).2.2]
  · exact absurd (hconds side).2.1 hne
  · rw [(hconds side).1]
    decide
  · intro t side
    simp [hphase, (hconds side).2.2]
  · intro _
    exact .inl (.inr (.inr fun t => by simp [(hconds .writers).2.2]))
  · rintro - - ⟨t, call, ht, -⟩
    rw [hphase] at ht
    cases ht

theorem LockInv.noneStranded_leave_iff (hinv : LockInv s)
    (henabled : LockAction.Enabled s (.leave t call result)) :
    NoneStranded (lockExecute s (.leave t call result)) ↔ TurnPassed s (.leave t call result) := by
  constructor
  · intro hstranded _ hzero _ hpos
    by_contra hnone
    have hcounts := hinv.counts.leave henabled.2
    have hpos' : 0 < (execute s.lock (.leave t call result)).rwNwaitreaders := hpos
    rw [hcounts.waitreaders] at hpos'
    obtain ⟨u, call', hu, -⟩ := hcounts.exists_waiting rfl hpos'
    exact hstranded rfl hzero hnone u call' hu
  · intro hguard
    exact (hinv.leave hguard henabled).noneStranded

end Steps

/-- In every run in which the turn is passed on no waiter is stranded.  A destroy leaves the lock
as it was if and only if the lock is not busy, and a call which fails strands nobody if and only
if it passes the turn on. -/
theorem noneStranded_of_turnPassed {κ : Type} [DecidableEq κ] [Fintype κ] (s : LockState κ)
    (hreach : (lockSystem κ).Reachable TurnPassed s) : NoneStranded s ∧
    (∀ t, LockAction.Enabled s (.destroy t) → (DestroyKeeps s t ↔ TurnPassed s (.destroy t))) ∧
    ∀ t call result, LockAction.Enabled s (.leave t call result) →
      (NoneStranded (lockExecute s (.leave t call result)) ↔
        TurnPassed s (.leave t call result)) := by
  have hinv : LockInv s :=
    hreach.invariant (fun _ => lockInv_init) fun _ _ _ hinv hguard hstep => hinv.step hguard hstep
  exact ⟨hinv.noneStranded, fun t henabled => destroyKeeps_iff hinv.linked henabled.2.2,
    fun t call result henabled => hinv.noneStranded_leave_iff henabled⟩

/-! ## Three threads -/

def sampleLock : LockState (Fin 3) :=
  ⟨⟨none, 0, 0, 0, fun _ => ⟨.outside, 0, 0⟩⟩, fun _ => ⟨0, [], fun _ => .outside⟩, true⟩

theorem init_sampleLock : (lockSystem (Fin 3)).init sampleLock :=
  ⟨⟨rfl, rfl, rfl, rfl, fun _ => rfl⟩, rfl, fun _ => ⟨rfl, rfl, fun _ => rfl⟩⟩

def twoWriters : List (LockAction (Fin 3)) :=
  [.enter 0 .wrlock, .lock 0 .wrlock, .test 0 .wrlock, .leave 0 .wrlock 0,
    .enter 1 .timedwrlock, .lock 1 .timedwrlock, .test 1 .timedwrlock, .take 1 .timedwrlock]

/-- A third one waits to read.  The time of the second is over, the first unlocks, and the
second leaves. -/
def writerGivesUp : List (LockAction (Fin 3)) :=
  [.enter 2 .rdlock, .lock 2 .rdlock, .test 2 .rdlock, .take 2 .rdlock, .timeout 1 .timedwrlock,
    .enter 0 .unlock, .lock 0 .unlock, .test 0 .unlock, .leave 0 .unlock 0,
    .wake 1 .timedwrlock (-Cond.RT_ETIMEOUT), .countOut 1 .timedwrlock ETIMEDOUT,
    .leave 1 .timedwrlock ETIMEDOUT]

theorem noneStranded_of_twoWriters : ∃ s, (lockSystem (Fin 3)).Reachable TurnPassed s ∧
      (s.lock.owner, s.lock.rwRefcount, (s.conds .writers).suspendThread) = (none, -1, [1]) ∧
      NoneStranded s ∧ (∀ t, LockAction.Enabled s (.destroy t) →
        (DestroyKeeps s t ↔ TurnPassed s (.destroy t))) ∧
      ∀ t call result, LockAction.Enabled s (.leave t call result) →
        (NoneStranded (lockExecute s (.leave t call result)) ↔
          TurnPassed s (.leave t call result)) := by
  have hrun : (tryRun
      (fun s action => decide (action.Enabled s) && match action with
        | .destroy _ | .test _ .unlock => false
        | .leave _ _ result => result == 0
        | _ => true) lockExecute twoWriters sampleLock).map
      (fun s => (s.lock.owner, s.lock.rwRefcount, (s.conds .writers).suspendThread)) =
      some (none, -1, [1]) := by
    decide
  obtain ⟨s, hreach, hview⟩ := exists_tryRun TurnPassed init_sampleLock hrun
    (by
      intro s action htest
      rw [Bool.and_eq_true] at htest
      refine ⟨?_, of_decide_eq_true htest.1, rfl⟩
      cases action with
      | destroy t => cases htest.2
      | leave t call result => exact fun hne => absurd (beq_iff_eq.mp htest.2) hne
      | test t call =>
        cases call with
        | unlock => cases htest.2
        | _ => trivial
      | _ => trivial)
  exact ⟨s, hreach, hview, noneStranded_of_turnPassed s hreach⟩

theorem not_comesBack {c : CondState κ} (hrest : ∀ t, c.waits t = .outside ∨ c.waits t = .suspended) :
    ¬ComesBack c := by
  rintro ⟨t, ⟨result, ht⟩ | ⟨ht, -⟩⟩
  · rcases hrest t with h | h <;> nomatch h.symm.trans ht
  · rcases hrest t with h | h <;> nomatch h.symm.trans ht

/-- The last waiting writer gives up behind the unlock and strands a reader, and a destroy of a
busy lock keeps `rw_mutex`. -/
theorem not_noneStranded_of_timeout :
    (∃ s, (lockSystem (Fin 3)).Reachable (fun _ _ => True) s ∧ ¬NoneStranded s) ∧
    ∃ s, (lockSystem (Fin 3)).Reachable (fun _ _ => True) s ∧
      LockAction.Enabled s (.destroy 2) ∧ ¬DestroyKeeps s 2 := by
  have hsound : ∀ (s : LockState (Fin 3)) (action : LockAction (Fin 3)),
      decide (action.Enabled s) = true →
      True ∧ (lockSystem (Fin 3)).step s action (lockExecute s action) :=
    fun _ _ htest => ⟨trivial, of_decide_eq_true htest, rfl⟩
  constructor
  · have hrun : (tryRun (fun s action => decide (action.Enabled s)) lockExecute
        (twoWriters ++ writerGivesUp) sampleLock).map
        (fun s => (s.lock.owner, s.lock.rwRefcount, (s.lock.threads 2).phase,
          decide (∀ t, (s.conds .readers).waits t = .outside ∨
            (s.conds .readers).waits t = .suspended),
          decide (∀ t, (s.conds .writers).waits t = .outside ∨
            (s.conds .writers).waits t = .suspended))) =
        some (none, 0, .waiting .rdlock, true, true) := by
      decide
    obtain ⟨s, hreach, hview⟩ :=
      exists_tryRun (fun _ _ => True) init_sampleLock hrun hsound
    simp only [Prod.mk.injEq, decide_eq_true_eq] at hview
    obtain ⟨howner, hcount, hphase, hreaders, hwriters⟩ := hview
    refine ⟨s, hreach, fun hstranded => hstranded howner hcount ?_ 2 .rdlock hphase⟩
    rintro ⟨side, hback⟩
    cases side with
    | readers => exact not_comesBack hreaders hback
    | writers => exact not_comesBack hwriters hback
  · have hrun : (tryRun (fun s action => decide (action.Enabled s)) lockExecute
        twoWriters sampleLock).map
        (fun s => (s.lock.owner, s.lock.rwRefcount, (s.lock.threads 2).phase, s.alive)) =
        some (none, -1, .outside, true) := by
      decide
    obtain ⟨s, hreach, hview⟩ :=
      exists_tryRun (fun _ _ => True) init_sampleLock hrun hsound
    simp only [Prod.mk.injEq] at hview
    obtain ⟨howner, hcount, hphase, halive⟩ := hview
    have hbusy : s.Busy := .inl (by rw [hcount]; decide)
    exact ⟨s, hreach, ⟨halive, hphase, howner⟩, not_destroyKeeps_of_busy howner hbusy⟩

end RtThread.Rwlock
