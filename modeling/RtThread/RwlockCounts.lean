import RtThread.RwlockModel

/-!
# The counts of a reader-writer lock

Every count of the lock is a sum over the threads: a thread contributes the locks which it has
been granted, and itself while it is in a wait.  A lock is granted when it is counted, which is
before the call returns, so the sums agree with the counts whoever owns `rw_mutex`.
-/

namespace RtThread.Rwlock

open Function ThreadState Phase Finset

structure CountsHolders {κ : Type} [Fintype κ] (s : RwlockState κ) : Prop where
  writer : s.rwRefcount = -1 ↔ ∃ t, (s.threads t).writes = 1 ∧ (∀ u, (s.threads u).reads = 0) ∧
      ∀ u, u ≠ t → (s.threads u).writes = 0
  readers : s.rwRefcount ≠ -1 →
    s.rwRefcount = ∑ t, ((s.threads t).reads : ℤ) ∧ ∀ t, (s.threads t).writes = 0

def Phase.WaitsIn (kind : Call → Bool) (phase : Phase) : Prop :=
  ∃ call, phase = .waiting call ∧ kind call = true

/-- When `rw_mutex` is free, the counts are those of the holders and of the waiting threads.  A
call which fails leaves the count to those who held the lock before. -/
structure CountsAgree {κ : Type} [Fintype κ] (s : RwlockState κ) : Prop where
  holders : s.owner = none → CountsHolders s
  waitingReaders : s.owner = none →
    s.rwNwaitreaders = Set.ncard {t | (s.threads t).phase.WaitsIn Call.reads}
  waitingWriters : s.owner = none →
    s.rwNwaitwriters = Set.ncard {t | (s.threads t).phase.WaitsIn Call.writes}
  failed : ∀ t call result, (s.threads t).phase = .leaving call result → result ≠ 0 →
    CountsHolders s

def Phase.granted (kind : Call → Bool) : Phase → ℤ
  | .leaving call result => if result = 0 ∧ kind call = true then 1 else 0
  | _ => 0

def Phase.counted (kind : Call → Bool) : Phase → ℤ
  | .waiting call => if kind call = true then 1 else 0
  | .woken call _ => if kind call = true then 1 else 0
  | _ => 0

def Phase.inside : Phase → Bool
  | .testing _ => true
  | .woken _ _ => true
  | .leaving _ _ => true
  | _ => false

namespace ThreadState

def readGrants (l : ThreadState) : ℤ := l.reads + l.phase.granted Call.reads

def writeGrants (l : ThreadState) : ℤ := l.writes + l.phase.granted Call.writes

def Valid (l : ThreadState) : Prop :=
  match l.phase with
  | .locking call => call = .unlock → 0 < l.reads + l.writes
  | .testing call => call = .unlock → 0 < l.reads + l.writes
  | .waiting call => call ≠ .unlock
  | .woken call _ => call ≠ .unlock
  | _ => True

theorem granted_nonneg (kind : Call → Bool) (phase : Phase) : 0 ≤ phase.granted kind := by
  unfold granted
  split
  · split_ifs <;> decide
  · exact le_rfl

theorem readGrants_nonneg (l : ThreadState) : 0 ≤ l.readGrants :=
  add_nonneg (Int.natCast_nonneg _) (granted_nonneg _ _)

theorem writeGrants_nonneg (l : ThreadState) : 0 ≤ l.writeGrants :=
  add_nonneg (Int.natCast_nonneg _) (granted_nonneg _ _)

end ThreadState

section Sums

variable {κ : Type} [Fintype κ]

def total (weight : ThreadState → ℤ) (threads : κ → ThreadState) : ℤ := ∑ t, weight (threads t)

theorem total_update [DecidableEq κ] (weight : ThreadState → ℤ) (threads : κ → ThreadState) (t : κ)
    (l : ThreadState) : total weight (update threads t l) =
      total weight threads - weight (threads t) + weight l := by
  unfold total
  rw [← add_sum_erase _ _ (mem_univ t),
    ← add_sum_erase univ (fun u => weight (threads u)) (mem_univ t),
    update_self]
  have hothers : ∑ u ∈ univ.erase t, weight (update threads t l u) =
      ∑ u ∈ univ.erase t, weight (threads u) :=
    sum_congr rfl fun u hu => by
      rw [update_of_ne (ne_of_mem_erase hu)]
  rw [hothers]
  ring

theorem weight_le_total {weight : ThreadState → ℤ} (hnonneg : ∀ l, 0 ≤ weight l)
    (threads : κ → ThreadState) (t : κ) : weight (threads t) ≤ total weight threads :=
  single_le_sum (f := fun u => weight (threads u)) (fun _ _ => hnonneg _) (mem_univ t)

theorem total_nonneg {weight : ThreadState → ℤ} (hnonneg : ∀ l, 0 ≤ weight l)
    (threads : κ → ThreadState) : 0 ≤ total weight threads :=
  sum_nonneg fun _ _ => hnonneg _

end Sums

variable {κ : Type} [DecidableEq κ] [Fintype κ] {s s' : RwlockState κ} {t : κ} {l : ThreadState}

/-- The counts of the lock are those over its threads. -/
structure RwlockInv (s : RwlockState κ) : Prop where
  owned : ∀ t, (s.threads t).phase.inside = true ↔ s.owner = some t
  valid : ∀ t, (s.threads t).Valid
  refcount : s.rwRefcount =
    total ThreadState.readGrants s.threads - total ThreadState.writeGrants s.threads
  exclusive : total ThreadState.writeGrants s.threads = 0 ∨
    total ThreadState.writeGrants s.threads = 1 ∧ total ThreadState.readGrants s.threads = 0
  waitreaders : s.rwNwaitreaders = total (·.phase.counted Call.reads) s.threads
  waitwriters : s.rwNwaitwriters = total (·.phase.counted Call.writes) s.threads

/-- What a step of one thread does to the count. -/
inductive Counted (rwRefcount rwRefcount' : ℤ) (l l' : ThreadState) : Prop where
  | same (hread : l'.readGrants = l.readGrants) (hwrite : l'.writeGrants = l.writeGrants)
      (hcount : rwRefcount' = rwRefcount)
  | read (hread : l'.readGrants = l.readGrants + 1) (hwrite : l'.writeGrants = l.writeGrants)
      (hcount : rwRefcount' = rwRefcount + 1) (hfree : 0 ≤ rwRefcount)
  | write (hread : l'.readGrants = l.readGrants) (hwrite : l'.writeGrants = l.writeGrants + 1)
      (hcount : rwRefcount' = -1) (hfree : rwRefcount = 0)
  | unread (hread : l'.readGrants = l.readGrants - 1) (hwrite : l'.writeGrants = l.writeGrants)
      (hcount : rwRefcount' = RwlockState.releaseCount rwRefcount) (hheld : 0 < l.readGrants)
  | unwrite (hread : l'.readGrants = l.readGrants) (hwrite : l'.writeGrants = l.writeGrants - 1)
      (hcount : rwRefcount' = RwlockState.releaseCount rwRefcount) (hheld : 0 < l.writeGrants)

theorem RwlockInv.change (hinv : RwlockInv s)
    (hthreads : s'.threads = update s.threads t l)
    (hothers : ∀ u, u ≠ t → (s'.owner = some u ↔ s.owner = some u))
    (hinside : l.phase.inside = true ↔ s'.owner = some t) (hvalid : l.Valid)
    (hcounted : Counted s.rwRefcount s'.rwRefcount (s.threads t) l)
    (hreaders : s'.rwNwaitreaders = s.rwNwaitreaders -
      (s.threads t).phase.counted Call.reads + l.phase.counted Call.reads)
    (hwriters : s'.rwNwaitwriters = s.rwNwaitwriters -
      (s.threads t).phase.counted Call.writes + l.phase.counted Call.writes) : RwlockInv s' := by
  have hread := total_update readGrants s.threads t l
  have hwrite := total_update writeGrants s.threads t l
  have hread₀ := weight_le_total readGrants_nonneg s.threads t
  have hwrite₀ := weight_le_total writeGrants_nonneg s.threads t
  have hcount := hinv.refcount
  have hexclusive := hinv.exclusive
  rw [← hthreads] at hread hwrite
  constructor
  · intro u
    rw [hthreads]
    by_cases hut : u = t
    · rw [hut, update_self]
      exact hinside
    · rw [update_of_ne hut, hinv.owned u]
      exact (hothers u hut).symm
  · intro u
    rw [hthreads]
    by_cases hut : u = t
    · rw [hut, update_self]
      exact hvalid
    · rw [update_of_ne hut]
      exact hinv.valid u
  · cases hcounted with
    | same | read | write => lia
    | unread _ _ hrelease | unwrite _ _ hrelease => unfold RwlockState.releaseCount at hrelease; lia
  · cases hcounted with
    | same | read | write | unread | unwrite => lia
  · rw [hreaders, hinv.waitreaders, hthreads, total_update]
  · rw [hwriters, hinv.waitwriters, hthreads, total_update]

theorem RwlockInv.setPhase {phase : Phase} (hinv : RwlockInv s)
    (hthreads : s'.threads = update s.threads t { s.threads t with phase := phase })
    (hothers : ∀ u, u ≠ t → (s'.owner = some u ↔ s.owner = some u))
    (hinside : phase.inside = true ↔ s'.owner = some t)
    (hvalid : ({ s.threads t with phase := phase } : ThreadState).Valid)
    (hread : phase.granted Call.reads = (s.threads t).phase.granted Call.reads)
    (hwrite : phase.granted Call.writes = (s.threads t).phase.granted Call.writes)
    (hcount : s'.rwRefcount = s.rwRefcount)
    (hreaders : s'.rwNwaitreaders = s.rwNwaitreaders -
      (s.threads t).phase.counted Call.reads + phase.counted Call.reads)
    (hwriters : s'.rwNwaitwriters = s.rwNwaitwriters -
      (s.threads t).phase.counted Call.writes + phase.counted Call.writes) :
    RwlockInv s' :=
  hinv.change hthreads hothers hinside hvalid
    (.same (by rw [readGrants, hread, readGrants])
      (by rw [writeGrants, hwrite, writeGrants]) hcount) hreaders hwriters

omit [DecidableEq κ] [Fintype κ] in
theorem others_of_take {owner : Option κ} (howner : owner = none) (u : κ) (hut : u ≠ t) :
    some t = some u ↔ owner = some u := by
  rw [howner]
  simp [Ne.symm hut]

omit [DecidableEq κ] [Fintype κ] in
theorem others_of_release {owner : Option κ} (howner : owner = some t) (u : κ) (hut : u ≠ t) :
    none = some u ↔ owner = some u := by
  rw [howner]
  simp [Ne.symm hut]

section Steps

variable {call : Call} {result : ℤ}

section

variable (hinv : RwlockInv s)
include hinv

theorem RwlockInv.enter (henabled : Action.Enabled s (.enter t call)) :
    RwlockInv (execute s (.enter t call)) := by
  obtain ⟨hphase, hholder⟩ := henabled
  have howned := hinv.owned t
  rw [hphase] at howned
  refine hinv.setPhase rfl (fun _ _ => Iff.rfl) howned hholder ?_ ?_ rfl ?_ ?_ <;>
    simp [hphase, granted, counted, execute, RwlockState.setPhase,
      RwlockState.setThread]

theorem RwlockInv.lock (henabled : Action.Enabled s (.lock t call)) :
    RwlockInv (execute s (.lock t call)) := by
  obtain ⟨hphase, hfree⟩ := henabled
  have hvalid := hinv.valid t
  rw [Valid, hphase] at hvalid
  refine hinv.setPhase rfl (others_of_take hfree) ?_ hvalid ?_ ?_ rfl ?_ ?_ <;>
    simp [hphase, granted, counted, inside, execute, RwlockState.setPhase,
      RwlockState.setThread]

theorem RwlockInv.wake (henabled : Action.Enabled s (.wake t call result)) :
    RwlockInv (execute s (.wake t call result)) := by
  obtain ⟨hphase, hfree⟩ := henabled
  have hvalid := hinv.valid t
  rw [Valid, hphase] at hvalid
  refine hinv.setPhase rfl (others_of_take hfree) ?_ hvalid ?_ ?_ rfl ?_ ?_ <;>
    simp [hphase, granted, counted, inside, execute, RwlockState.setPhase,
      RwlockState.setThread]

theorem RwlockInv.countOut (henabled : Action.Enabled s (.countOut t call result)) :
    RwlockInv (execute s (.countOut t call result)) := by
  have hphase : (s.threads t).phase = .woken call result := henabled
  have hvalid := hinv.valid t
  have howned := hinv.owned t
  rw [Valid, hphase] at hvalid
  rw [hphase] at howned
  have howner : s.owner = some t := howned.mp rfl
  have hwrites : call.writes = !call.reads := by
    cases call <;> first | rfl | contradiction
  rw [execute, RwlockState.countOut_eq]
  by_cases hresult : result = 0
  · rw [if_neg (not_not_intro hresult)]
    refine hinv.setPhase rfl (fun _ _ => Iff.rfl) ?_ (fun h => absurd h hvalid) ?_ ?_ rfl ?_ ?_ <;>
      simp [hphase, hwrites, howner, granted, counted, inside,
        RwlockState.setPhase, RwlockState.setThread]
    cases call.reads <;> rfl
  · rw [if_pos hresult]
    refine hinv.setPhase rfl (fun _ _ => Iff.rfl) ?_ trivial ?_ ?_ rfl ?_ ?_ <;>
      simp [hphase, hwrites, howner, hresult, granted, counted, inside,
        RwlockState.setPhase, RwlockState.setThread]
    cases call.reads <;> rfl

theorem RwlockInv.leave (henabled : Action.Enabled s (.leave t call result)) :
    RwlockInv (execute s (.leave t call result)) := by
  have hphase : (s.threads t).phase = .leaving call result := henabled
  have howned := hinv.owned t
  rw [hphase] at howned
  have howner : s.owner = some t := howned.mp rfl
  refine hinv.change rfl (others_of_release howner) ?_ trivial (.same ?_ ?_ rfl) ?_ ?_
  · simp [execute, returned, inside]
  · rw [readGrants, readGrants, hphase]
    unfold returned granted
    dsimp only
    split_ifs <;> simp
  · rw [writeGrants, writeGrants, hphase]
    unfold returned granted
    dsimp only
    split_ifs <;> simp
  · simp [execute, hphase, returned, counted, RwlockState.setThread]
  · simp [execute, hphase, returned, counted, RwlockState.setThread]

end

section

variable (hinv : RwlockInv s)
include hinv

theorem RwlockInv.testRdlock (hphase : (s.threads t).phase = .testing call)
    (hreads : call.reads = true) : RwlockInv (s.testRdlock t call) := by
  have howned := hinv.owned t
  rw [hphase] at howned
  have howner : s.owner = some t := howned.mp rfl
  have hwrites : call.writes = false := by
    cases call <;> first | rfl | cases hreads
  have hne : call ≠ .unlock := by
    rintro rfl
    cases hreads
  unfold RwlockState.testRdlock
  split_ifs with hblocked
  · refine hinv.setPhase rfl (others_of_release howner) ?_ hne ?_ ?_ rfl ?_ ?_ <;>
      simp [hphase, hreads, hwrites, granted, counted, inside,
        RwlockState.setPhase, RwlockState.setThread]
  · rw [RwlockState.ReadBlocked, not_or, not_lt] at hblocked
    refine hinv.change rfl (fun _ _ => Iff.rfl) ?_ trivial (.read ?_ ?_ rfl hblocked.1) ?_ ?_ <;>
      simp [hphase, hreads, hwrites, howner, readGrants, writeGrants,
        granted, counted, inside, RwlockState.setPhase, RwlockState.setThread]

theorem RwlockInv.testTryrdlock (hphase : (s.threads t).phase = .testing .tryrdlock) :
    RwlockInv (s.testTryrdlock t) := by
  have howned := hinv.owned t
  rw [hphase] at howned
  have howner : s.owner = some t := howned.mp rfl
  unfold RwlockState.testTryrdlock
  split_ifs with hblocked
  · refine hinv.setPhase rfl (fun _ _ => Iff.rfl) ?_ trivial ?_ ?_ rfl ?_ ?_ <;>
      simp [hphase, howner, EBUSY, granted, counted, inside,
        RwlockState.setPhase, RwlockState.setThread]
  · rw [RwlockState.ReadBlocked, not_or, not_lt] at hblocked
    refine hinv.change rfl (fun _ _ => Iff.rfl) ?_ trivial (.read ?_ ?_ rfl hblocked.1) ?_ ?_ <;>
      simp [hphase, howner, Call.reads, Call.writes, readGrants,
        writeGrants, granted, counted, inside,
        RwlockState.setPhase, RwlockState.setThread]

theorem RwlockInv.testWrlock (hphase : (s.threads t).phase = .testing call)
    (hwrites : call.writes = true) : RwlockInv (s.testWrlock t call) := by
  have howned := hinv.owned t
  rw [hphase] at howned
  have howner : s.owner = some t := howned.mp rfl
  have hreads : call.reads = false := by
    cases call <;> first | rfl | cases hwrites
  have hne : call ≠ .unlock := by
    rintro rfl
    cases hwrites
  unfold RwlockState.testWrlock
  split_ifs with hheld
  · refine hinv.setPhase rfl (others_of_release howner) ?_ hne ?_ ?_ rfl ?_ ?_ <;>
      simp [hphase, hreads, hwrites, granted, counted, inside,
        RwlockState.setPhase, RwlockState.setThread]
  · refine hinv.change rfl (fun _ _ => Iff.rfl) ?_ trivial
      (.write ?_ ?_ rfl (not_not.mp hheld)) ?_ ?_ <;>
      simp [hphase, hreads, hwrites, howner, readGrants, writeGrants,
        granted, counted, inside, RwlockState.setPhase, RwlockState.setThread]

theorem RwlockInv.testTrywrlock (hphase : (s.threads t).phase = .testing .trywrlock) :
    RwlockInv (s.testTrywrlock t) := by
  have howned := hinv.owned t
  rw [hphase] at howned
  have howner : s.owner = some t := howned.mp rfl
  unfold RwlockState.testTrywrlock
  split_ifs with hheld
  · refine hinv.setPhase rfl (fun _ _ => Iff.rfl) ?_ trivial ?_ ?_ rfl ?_ ?_ <;>
      simp [hphase, howner, EBUSY, granted, counted, inside,
        RwlockState.setPhase, RwlockState.setThread]
  · refine hinv.change rfl (fun _ _ => Iff.rfl) ?_ trivial
      (.write ?_ ?_ rfl (not_not.mp hheld)) ?_ ?_ <;>
      simp [hphase, howner, Call.reads, Call.writes, readGrants,
        writeGrants, granted, counted, inside,
        RwlockState.setPhase, RwlockState.setThread]

theorem RwlockInv.testUnlock (hphase : (s.threads t).phase = .testing .unlock) :
    RwlockInv (s.testUnlock t) := by
  have howned := hinv.owned t
  have hholds := hinv.valid t
  rw [hphase] at howned
  rw [Valid, hphase] at hholds
  have howner : s.owner = some t := howned.mp rfl
  have hheld : 0 < (s.threads t).reads + (s.threads t).writes := hholds rfl
  unfold RwlockState.testUnlock
  by_cases hwrites : 0 < (s.threads t).writes
  · refine hinv.change rfl (fun _ _ => Iff.rfl) ?_ trivial (.unwrite ?_ ?_ rfl ?_) ?_ ?_ <;>
      simp [hphase, hwrites, howner, Call.reads, Call.writes, giveBack,
        readGrants, writeGrants, granted, counted,
        inside, RwlockState.setThread]
  · refine hinv.change rfl (fun _ _ => Iff.rfl) ?_ trivial (.unread ?_ ?_ rfl ?_) ?_ ?_ <;>
      simp [hphase, hwrites, howner, Call.reads, Call.writes, giveBack,
        readGrants, writeGrants, granted, counted,
        inside, RwlockState.setThread]
    · omega
    · omega

theorem RwlockInv.test (henabled : Action.Enabled s (.test t call)) :
    RwlockInv (execute s (.test t call)) := by
  have hphase : (s.threads t).phase = .testing call := henabled
  cases call with
  | rdlock => exact hinv.testRdlock hphase rfl
  | tryrdlock => exact hinv.testTryrdlock hphase
  | timedrdlock => exact hinv.testRdlock hphase rfl
  | wrlock => exact hinv.testWrlock hphase rfl
  | trywrlock => exact hinv.testTrywrlock hphase
  | timedwrlock => exact hinv.testWrlock hphase rfl
  | unlock => exact hinv.testUnlock hphase

end

end Steps

/-- Each action changes the counts by what its thread does. -/
theorem RwlockInv.step {action : Action κ} (hinv : RwlockInv s)
    (hstep : (rwlockSystem κ).step s action s') : RwlockInv s' := by
  obtain ⟨henabled, rfl⟩ := hstep
  cases action with
  | enter t call => exact hinv.enter henabled
  | lock t call => exact hinv.lock henabled
  | test t call => exact hinv.test henabled
  | wake t call result => exact hinv.wake henabled
  | countOut t call result => exact hinv.countOut henabled
  | leave t call result => exact hinv.leave henabled

theorem rwlockInv_init (hinit : (rwlockSystem κ).init s) : RwlockInv s := by
  obtain ⟨howner, hreaders, hwriters, hcount, hthreads⟩ := hinit
  constructor
  · intro t
    simp [hthreads, howner, inside]
  · intro t
    rw [hthreads]
    trivial
  all_goals simp [total, hthreads, hreaders, hwriters, hcount, readGrants,
      writeGrants, granted, counted]

theorem sum_writes_eq_one_iff (threads : κ → ThreadState) : ∑ t, ((threads t).writes : ℤ) = 1 ↔
      ∃ t, (threads t).writes = 1 ∧ ∀ u, u ≠ t → (threads u).writes = 0 := by
  constructor
  · intro hsum
    obtain ⟨t, -, ht⟩ := exists_ne_zero_of_sum_ne_zero (hsum ▸ one_ne_zero)
    rw [← add_sum_erase _ _ (mem_univ t)] at hsum
    have hrest : 0 ≤ ∑ u ∈ univ.erase t, ((threads u).writes : ℤ) :=
      sum_nonneg fun _ _ => Int.natCast_nonneg _
    refine ⟨t, by omega, fun u hu => ?_⟩
    have hle := single_le_sum (f := fun u => ((threads u).writes : ℤ))
      (fun _ _ => Int.natCast_nonneg _) (mem_erase.mpr ⟨hu, mem_univ u⟩)
    omega
  · rintro ⟨t, ht, hothers⟩
    rw [sum_eq_single t (fun u _ hu => by rw [hothers u hu]; rfl)
      (fun h => absurd (mem_univ t) h), ht]
    rfl

theorem RwlockInv.countsHolders (hinv : RwlockInv s)
    (hread : ∀ t, (s.threads t).phase.granted Call.reads = 0)
    (hwrite : ∀ t, (s.threads t).phase.granted Call.writes = 0) : CountsHolders s := by
  have hreads : total readGrants s.threads = ∑ t, ((s.threads t).reads : ℤ) :=
    sum_congr rfl fun t _ => by rw [readGrants, hread, add_zero]
  have hwrites : total writeGrants s.threads = ∑ t, ((s.threads t).writes : ℤ) :=
    sum_congr rfl fun t _ => by rw [writeGrants, hwrite, add_zero]
  have hcount := hinv.refcount
  have hexclusive := hinv.exclusive
  have hnonneg : 0 ≤ ∑ t, ((s.threads t).reads : ℤ) :=
    sum_nonneg fun _ _ => Int.natCast_nonneg _
  rw [hreads, hwrites] at hcount hexclusive
  constructor
  · constructor
    · intro hheld
      obtain ⟨t, ht, hothers⟩ := (sum_writes_eq_one_iff s.threads).mp (by lia)
      have hnone : ∑ t, ((s.threads t).reads : ℤ) = 0 := by lia
      refine ⟨t, ht, fun u => ?_, hothers⟩
      have hu := (sum_eq_zero_iff_of_nonneg fun _ _ => Int.natCast_nonneg _).mp hnone u
        (mem_univ u)
      exact Int.natCast_eq_zero.mp hu
    · rintro ⟨t, ht, hnone, hothers⟩
      have hone := (sum_writes_eq_one_iff s.threads).mpr ⟨t, ht, hothers⟩
      lia
  · intro hheld
    have hzero : ∑ t, ((s.threads t).writes : ℤ) = 0 := by lia
    refine ⟨by lia, fun t => ?_⟩
    have ht := (sum_eq_zero_iff_of_nonneg fun _ _ => Int.natCast_nonneg _).mp hzero t
      (mem_univ t)
    exact Int.natCast_eq_zero.mp ht

theorem granted_of_not_inside {phase : Phase} (kind : Call → Bool) (hout : phase.inside = false) :
    phase.granted kind = 0 := by
  cases phase with
  | leaving call result => exact absurd hout (Bool.true_eq_false_eq_False)
  | _ => rfl

omit [DecidableEq κ] in
theorem total_counted (kind : Call → Bool) (hout : ∀ t, (s.threads t).phase.inside = false) :
    total (·.phase.counted kind) s.threads = Set.ncard {t | (s.threads t).phase.WaitsIn kind} := by
  classical
  rw [Set.ncard_eq_toFinset_card', Set.toFinset_ofPred, card_filter, Nat.cast_sum]
  refine sum_congr rfl fun t _ => ?_
  have ht := hout t
  change (s.threads t).phase.counted kind = _
  generalize (s.threads t).phase = phase at ht ⊢
  cases phase with
  | waiting call => simp [WaitsIn, counted]
  | woken call result => exact absurd ht (by simp [inside])
  | _ => simp [WaitsIn, counted]

theorem RwlockInv.countsAgree (hinv : RwlockInv s) : CountsAgree s := by
  have hout : s.owner = none → ∀ t, (s.threads t).phase.inside = false := by
    intro hfree t
    have howned := hinv.owned t
    rw [hfree] at howned
    simpa using howned
  constructor
  · intro hfree
    exact hinv.countsHolders (fun t => granted_of_not_inside _ (hout hfree t))
      (fun t => granted_of_not_inside _ (hout hfree t))
  · intro hfree
    rw [hinv.waitreaders, total_counted _ (hout hfree)]
  · intro hfree
    rw [hinv.waitwriters, total_counted _ (hout hfree)]
  · intro t call result hphase hfails
    have howner : s.owner = some t := (hinv.owned t).mp (by rw [hphase]; rfl)
    have hgranted : ∀ kind u, (s.threads u).phase.granted kind = 0 := by
      intro kind u
      by_cases hut : u = t
      · rw [hut, hphase, granted, if_neg fun h => hfails h.1]
      · refine granted_of_not_inside kind (Bool.eq_false_iff.mpr fun hinside => hut ?_)
        have hu := (hinv.owned u).mp hinside
        rw [howner] at hu
        exact (Option.some.inj hu).symm
    exact hinv.countsHolders (hgranted _) (hgranted _)

/-- In every run the counts of the lock are those of the holders and of the waiting threads. -/
theorem counts_agree {κ : Type} [DecidableEq κ] [Fintype κ] (s : RwlockState κ)
    (hreach : (rwlockSystem κ).Reachable (fun _ _ => True) s) : CountsAgree s := by
  have hinv : RwlockInv s :=
    hreach.invariant (fun _ => rwlockInv_init) fun _ _ _ hinv _ hstep => hinv.step hstep
  exact hinv.countsAgree

def sampleInit : RwlockState Bool := ⟨none, 0, 0, 0, fun _ => ⟨.outside, 0, 0⟩⟩

theorem counts_agree_of_writer_and_reader :
    ∃ s, (rwlockSystem Bool).Reachable (fun _ _ => True) s ∧
      (s.owner, s.rwRefcount, s.rwNwaitreaders, s.rwNwaitwriters) = (none, -1, 1, 0) ∧
      CountsAgree s := by
  have hinit : (rwlockSystem Bool).init sampleInit := ⟨rfl, rfl, rfl, rfl, fun _ => rfl⟩
  have hrun : (TransitionSystem.tryRun (fun s action => decide (action.Enabled s)) execute
      [.enter false .wrlock, .lock false .wrlock, .test false .wrlock, .leave false .wrlock 0,
        .enter true .rdlock, .lock true .rdlock, .test true .rdlock] sampleInit).map
      (fun s => (s.owner, s.rwRefcount, s.rwNwaitreaders, s.rwNwaitwriters)) =
      some (none, -1, 1, 0) := by
    decide
  obtain ⟨s, hreach, hview⟩ := TransitionSystem.exists_tryRun (fun _ _ => True) hinit hrun
    fun _ _ htest => ⟨trivial, of_decide_eq_true htest, rfl⟩
  exact ⟨s, hreach, hview, counts_agree s hreach⟩

end RtThread.Rwlock
