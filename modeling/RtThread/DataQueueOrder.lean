import RtThread.DataQueueLevels
import RtThread.CircularBuffer
import Mathlib.Data.Nat.Size

/-!
# The order of the items

With a size which is a power of two the mask selects the slot of an index, and the queue
is a circular buffer.  It is found full as long as `put_index` has not wrapped around
before `get_index`.  With any other size the mask selects one slot for two items.
-/

namespace RtThread.DataQueue

open List CircularBuffer Ipc

def unread (c : DataQueueConfig) (s : DataQueueState) : List DataItem :=
  (List.range (s.pushed.length - s.popped.length)).map fun i =>
    s.queue ((s.getIndex + i) % 65536 &&& mask c)

/-- The popped items are the first ones which were pushed; the other ones, at most `size`
of them, are in their slots. -/
structure Fifo (c : DataQueueConfig) (s : DataQueueState) : Prop where
  conserved : s.popped ++ unread c s = s.pushed
  bounded : (unread c s).length ≤ c.size

def Full (c : DataQueueConfig) (s : DataQueueState) : Prop :=
  (s.putIndex + 65536 - s.getIndex) % 65536 = c.size

def Pushes (s : DataQueueState) : Action → Prop
  | .push _ _ _ => True
  | .pop _ _ => False
  | .resumed t => (s.core.threads t).error = .eok ∧ ∃ item time, s.frame t = some ⟨.push item, time⟩
  | .timeout _ => False

/-- Nothing is pushed into a full queue whose `put_index` has wrapped around. -/
def NoWrappedFullPush (c : DataQueueConfig) (s : DataQueueState) (action : Action) : Prop :=
  Pushes s action → ¬(Full c s ∧ s.putIndex < s.getIndex)

variable {c : DataQueueConfig} {s s' : DataQueueState} {t : Thread}

/-- The indices count the items pushed and popped, in 16 bits. -/
structure Counted (s : DataQueueState) : Prop where
  getIndex_eq : s.getIndex = s.popped.length % 65536
  putIndex_eq : s.putIndex = s.pushed.length % 65536

structure SameItems (s s' : DataQueueState) : Prop where
  queue_eq : s'.queue = s.queue
  getIndex_eq : s'.getIndex = s.getIndex
  putIndex_eq : s'.putIndex = s.putIndex
  pushed_eq : s'.pushed = s.pushed
  popped_eq : s'.popped = s.popped

theorem SameItems.fifo_iff (hsame : SameItems s s') : Fifo c s' ↔ Fifo c s := by
  have hunread : unread c s' = unread c s := by
    simp only [unread, hsame.queue_eq, hsame.getIndex_eq, hsame.pushed_eq, hsame.popped_eq]
  constructor
  · rintro ⟨hconserved, hbounded⟩
    rw [hunread, hsame.pushed_eq, hsame.popped_eq] at *
    exact ⟨hconserved, hbounded⟩
  · rintro ⟨hconserved, hbounded⟩
    rw [← hunread, ← hsame.pushed_eq, ← hsame.popped_eq] at *
    exact ⟨hconserved, hbounded⟩

theorem SameItems.counted (hsame : SameItems s s') (hcounted : Counted s) : Counted s' := by
  constructor
  · rw [hsame.getIndex_eq, hsame.popped_eq]
    exact hcounted.getIndex_eq
  · rw [hsame.putIndex_eq, hsame.pushed_eq]
    exact hcounted.putIndex_eq

theorem pushLoop_items (item : DataItem) (timeout : ℤ) (level : IrqLevel) :
    if indexDifference s = c.size then SameItems s (pushLoop c s t item timeout level).1
    else SameItems (putItem c s item) (pushLoop c s t item timeout level).1 := by
  unfold pushLoop
  by_cases hfull : indexDifference s = c.size
  · rw [if_pos hfull, if_pos hfull]
    by_cases htime : timeout = 0
    · simp only [htime, if_true]
      exact ⟨rfl, rfl, rfl, rfl, rfl⟩
    · simp only [htime, if_false]
      exact ⟨rfl, rfl, rfl, rfl, rfl⟩
  · rw [if_neg hfull, if_neg hfull]
    exact ⟨rfl, rfl, rfl, rfl, rfl⟩

theorem popLoop_items (timeout : ℤ) (level irq : IrqLevel) :
    if s.getIndex = s.putIndex then SameItems s (popLoop c s t timeout level irq).1
    else SameItems (getItem c s) (popLoop c s t timeout level irq).1 := by
  unfold popLoop
  by_cases hempty : s.getIndex = s.putIndex
  · rw [if_pos hempty, if_pos hempty]
    by_cases htime : timeout = 0
    · rw [if_pos htime]
      exact ⟨rfl, rfl, rfl, rfl, rfl⟩
    · rw [if_neg htime]
      exact ⟨rfl, rfl, rfl, rfl, rfl⟩
  · rw [if_neg hempty, if_neg hempty]
    simp only
    split_ifs
    · exact ⟨rfl, rfl, rfl, rfl, rfl⟩
    · exact ⟨rfl, rfl, rfl, rfl, rfl⟩
    · exact ⟨rfl, rfl, rfl, rfl, rfl⟩

inductive ItemStep (c : DataQueueConfig) (s s' : DataQueueState) (action : Action) : Prop where
  | push (item : DataItem) (hpushes : Pushes s action) (hroom : indexDifference s ≠ c.size)
      (hsame : SameItems (putItem c s item) s')
  | pop (hpushes : ¬Pushes s action) (hitem : s.getIndex ≠ s.putIndex)
      (hsame : SameItems (getItem c s) s')
  | none (hpushes : Pushes s action → indexDifference s = c.size) (hsame : SameItems s s')

theorem callSection_push_items {action : Action} (hpushes : Pushes s action)
    (frame : Thread → Option Frame) (t : Thread) (item : DataItem) (timeout : ℤ) : ItemStep c s
      (callSection c { s with frame := frame } t ⟨.push item, timeout⟩ .enabled).1 action := by
  have hitems := pushLoop_items (c := c) (s := { s with frame := frame }) (t := t) item timeout
    .enabled
  by_cases hfull : indexDifference { s with frame := frame } = c.size
  · rw [if_pos hfull] at hitems
    obtain ⟨hqueue, hget, hput, hpushed, hpopped⟩ := hitems
    exact .none (fun _ => hfull) ⟨hqueue, hget, hput, hpushed, hpopped⟩
  · rw [if_neg hfull] at hitems
    obtain ⟨hqueue, hget, hput, hpushed, hpopped⟩ := hitems
    exact .push item hpushes hfull ⟨hqueue, hget, hput, hpushed, hpopped⟩

theorem callSection_pop_items {action : Action} (hpushes : ¬Pushes s action)
    (frame : Thread → Option Frame) (t : Thread) (timeout : ℤ) : ItemStep c s
      (callSection c { s with frame := frame } t ⟨.pop, timeout⟩ .enabled).1 action := by
  have hitems := popLoop_items (c := c) (s := { s with frame := frame }) (t := t) timeout
    .enabled .disabled
  by_cases hempty : s.getIndex = s.putIndex
  · rw [if_pos hempty] at hitems
    obtain ⟨hqueue, hget, hput, hpushed, hpopped⟩ := hitems
    exact .none (fun h => absurd h hpushes) ⟨hqueue, hget, hput, hpushed, hpopped⟩
  · rw [if_neg hempty] at hitems
    obtain ⟨hqueue, hget, hput, hpushed, hpopped⟩ := hitems
    exact .pop hpushes hempty ⟨hqueue, hget, hput, hpushed, hpopped⟩

theorem execute_items (action : Action) : ItemStep c s (execute c s action) action := by
  cases action with
  | push t item timeout =>
    have hpushes : Pushes s (.push t item timeout) := trivial
    exact callSection_push_items hpushes s.frame t item timeout
  | pop t timeout =>
    have hnot : ¬Pushes s (.pop t timeout) := id
    exact callSection_pop_items hnot s.frame t timeout
  | timeout t => exact .none False.elim ⟨rfl, rfl, rfl, rfl, rfl⟩
  | resumed t =>
    cases hframe : s.frame t with
    | none =>
      simp only [execute, hframe]
      refine .none ?_ ⟨rfl, rfl, rfl, rfl, rfl⟩
      rintro ⟨-, item, time, hsome⟩
      rw [hframe] at hsome
      cases hsome
    | some f =>
      simp only [execute, hframe]
      by_cases hcode : (s.core.threads t).error = .eok
      · rw [resumedSection_of_eok hcode]
        obtain ⟨call, timeout⟩ := f
        cases call with
        | push item =>
          have hpushes : Pushes s (.resumed t) := ⟨hcode, item, timeout, hframe⟩
          exact callSection_push_items hpushes _ t item timeout
        | pop =>
          have hnot : ¬Pushes s (.resumed t) := by
            rintro ⟨-, item, time, hsome⟩
            rw [hframe] at hsome
            simp at hsome
          exact callSection_pop_items hnot _ t timeout
      · refine .none (fun h => absurd h.1 hcode) ?_
        unfold resumedSection
        rw [if_pos hcode]
        exact ⟨rfl, rfl, rfl, rfl, rfl⟩

section PowerOfTwo

variable {k : ℕ}

/-- Every action moves the indices as it pushes and pops. -/
theorem Counted.execute (hcounted : Counted s) (action : Action) :
    Counted (execute c s action) := by
  obtain ⟨item, -, -, hsame⟩ | ⟨-, -, hsame⟩ | ⟨-, hsame⟩ := execute_items (c := c) (s := s) action
  · apply hsame.counted
    refine ⟨hcounted.getIndex_eq, ?_⟩
    simp [putItem, Word.succ16, hcounted.putIndex_eq]
  · apply hsame.counted
    refine ⟨?_, hcounted.putIndex_eq⟩
    simp [getItem, Word.succ16, hcounted.getIndex_eq]
  · exact hsame.counted hcounted

theorem pow_dvd_of_size (hsize : c.size = 2 ^ k) : 2 ^ k ∣ 65536 := by
  have hlt : 2 ^ k < 2 ^ 16 := hsize ▸ c.size_lt
  have hk : k < 16 := (Nat.pow_lt_pow_iff_right (by norm_num)).mp hlt
  exact (pow_dvd_pow 2 hk.le : 2 ^ k ∣ 2 ^ 16)

theorem and_mask_eq (hsize : c.size = 2 ^ k) (i : ℕ) : i % 65536 &&& mask c = i % c.size := by
  rw [mask, hsize, Nat.and_two_pow_sub_one_eq_mod, Nat.mod_mod_of_dvd _ (pow_dvd_of_size hsize)]

theorem unread_eq_window (hsize : c.size = 2 ^ k) (s : DataQueueState) : unread c s =
      window s.queue c.size s.getIndex (s.pushed.length - s.popped.length) := by
  unfold unread window
  simp only [and_mask_eq hsize]

theorem length_unread (c : DataQueueConfig) (s : DataQueueState) :
    (unread c s).length = s.pushed.length - s.popped.length := by
  simp [unread]

theorem Fifo.length_eq (hfifo : Fifo c s) :
    s.popped.length + (unread c s).length = s.pushed.length := by
  rw [← length_append, hfifo.conserved]

theorem Fifo.indices (hfifo : Fifo c s) (hcounted : Counted s) :
    (s.putIndex + 65536 - s.getIndex) % 65536 = (unread c s).length ∧
      s.getIndex < 65536 ∧ s.putIndex < 65536 := by
  have hlength := hfifo.length_eq
  have hbounded := hfifo.bounded
  have hsize := c.size_lt
  rw [hcounted.getIndex_eq, hcounted.putIndex_eq]
  lia

section

variable (hsize : c.size = 2 ^ k)
include hsize

theorem Fifo.getItem (hfifo : Fifo c s) (hcounted : Counted s)
    (hitem : s.getIndex ≠ s.putIndex) : Fifo c (getItem c s) := by
  obtain ⟨hdifference, hget, hput⟩ := hfifo.indices hcounted
  have hpos : 0 < (unread c s).length := by lia
  have hlength := hfifo.length_eq
  have hunread : unread c s = headItem c s :: unread c (DataQueue.getItem c s) := by
    obtain ⟨len, hlen⟩ := Nat.exists_eq_succ_of_ne_zero hpos.ne'
    have hcount : s.pushed.length - s.popped.length = len + 1 := by lia
    have hcount' : s.pushed.length - (s.popped.length + 1) = len := by lia
    have hhead : headItem c s = s.queue (s.getIndex % c.size) := by
      rw [headItem, ← and_mask_eq hsize, Nat.mod_eq_of_lt hget]
    have hnext : Word.succ16 s.getIndex % c.size = (s.getIndex + 1) % c.size := by
      rw [hsize]
      exact Nat.mod_mod_of_dvd _ (pow_dvd_of_size hsize)
    rw [unread_eq_window hsize, unread_eq_window hsize, hcount, window_cons, hhead]
    simp only [DataQueue.getItem, length_append, length_singleton, hcount']
    rw [← window_mod _ _ (Word.succ16 s.getIndex), hnext, window_mod]
  have hconserved := hfifo.conserved
  have hbounded := hfifo.bounded
  rw [hunread] at hconserved hbounded
  constructor
  · simpa [DataQueue.getItem] using hconserved
  · exact (Nat.le_succ _).trans hbounded

theorem Fifo.putItem (hfifo : Fifo c s) (hcounted : Counted s)
    (hroom : (unread c s).length < c.size) (item : DataItem) : Fifo c (putItem c s item) := by
  obtain ⟨hdifference, hget, hput⟩ := hfifo.indices hcounted
  have hlength := hfifo.length_eq
  have hcount := length_unread c s
  have hslot : s.putIndex &&& mask c = (s.getIndex + (unread c s).length) % c.size := by
    rw [← and_mask_eq hsize]
    congr 1
    omega
  have hunread : unread c (DataQueue.putItem c s item) = unread c s ++ [item] := by
    have hnew : (s.pushed ++ [item]).length - s.popped.length = (unread c s).length + 1 := by
      rw [length_append, length_singleton]
      omega
    rw [unread_eq_window hsize, unread_eq_window hsize s]
    simp only [DataQueue.putItem, hnew, hslot, ← hcount]
    exact window_push hroom item
  constructor
  · rw [hunread, ← append_assoc]
    change s.popped ++ unread c s ++ [item] = s.pushed ++ [item]
    rw [hfifo.conserved]
  · rw [hunread, length_append]
    exact hroom

/-- The order is kept unless a push meets a full queue whose index has wrapped around. -/
theorem Fifo.execute_iff (hfifo : Fifo c s) (hcounted : Counted s)
    (action : Action) : Fifo c (execute c s action) ↔ NoWrappedFullPush c s action := by
  obtain ⟨hdifference, hget, hput⟩ := hfifo.indices hcounted
  have hbounded := hfifo.bounded
  obtain ⟨item, hpushes, hroom, hsame⟩ | ⟨hpushes, hitem, hsame⟩ | ⟨hfull, hsame⟩ :=
    execute_items (c := c) (s := s) action
  · rw [hsame.fifo_iff]
    unfold indexDifference at hroom
    constructor
    · intro hfifo' _ hfull
      have hbounded' := hfifo'.bounded
      have hlength := hfifo.length_eq
      have hexact : (unread c s).length = c.size := hdifference.symm.trans hfull.1
      have hnew : (unread c (DataQueue.putItem c s item)).length =
          s.pushed.length + 1 - s.popped.length := by
        simp [length_unread, DataQueue.putItem]
      lia
    · intro hguard
      apply hfifo.putItem hsize hcounted
      apply lt_of_le_of_ne hbounded
      intro hexact
      apply hguard hpushes
      refine ⟨hdifference.trans hexact, ?_⟩
      by_contra hnot
      apply hroom
      lia
  · rw [hsame.fifo_iff]
    exact ⟨fun _ h => absurd h hpushes, fun _ => hfifo.getItem hsize hcounted hitem⟩
  · rw [hsame.fifo_iff]
    refine ⟨fun _ hpushes => ?_, fun _ => hfifo⟩
    have hdiff := hfull hpushes
    unfold indexDifference at hdiff
    rintro ⟨-, hwrapped⟩
    lia

theorem Fifo.of_reachable
    (hreach : (dataQueueSystem c).Reachable (NoWrappedFullPush c) s) : Fifo c s ∧ Counted s := by
  apply hreach.invariant (P := fun s => Fifo c s ∧ Counted s)
  · rintro s ⟨-, -, -, hget, hput, hpushed, hpopped⟩
    refine ⟨⟨?_, ?_⟩, ⟨?_, ?_⟩⟩
    · simp [unread, hpushed, hpopped]
    · simp [unread, hpushed, hpopped]
    · simp [hget, hpopped]
    · simp [hput, hpushed]
  · rintro s action s' ⟨hfifo, hcounted⟩ hguard ⟨-, rfl⟩
    exact ⟨(hfifo.execute_iff hsize hcounted action).mpr hguard, hcounted.execute action⟩

end

end PowerOfTwo

section Steps

variable {guard : DataQueueState → Action → Prop}

theorem exists_push (hreach : (dataQueueSystem c).Reachable guard s) (item : DataItem)
    (hguard : guard s (.push firstThread item 0)) (hroom : indexDifference s ≠ c.size) :
    ∃ s', (dataQueueSystem c).Reachable guard s' ∧ SameItems (putItem c s item) s' := by
  have hitems := pushLoop_items (c := c) (s := s) (t := firstThread) item 0 .enabled
  rw [if_neg hroom] at hitems
  exact ⟨_, hreach.next hguard ⟨.inl rfl, rfl⟩, hitems⟩

theorem exists_pop (hreach : (dataQueueSystem c).Reachable guard s)
    (hguard : guard s (.pop firstThread 0)) (hitem : s.getIndex ≠ s.putIndex) :
    ∃ s', (dataQueueSystem c).Reachable guard s' ∧ SameItems (getItem c s) s' := by
  have hitems := popLoop_items (c := c) (s := s) (t := firstThread) 0 .enabled .disabled
  rw [if_neg hitem] at hitems
  exact ⟨_, hreach.next hguard ⟨.inl rfl, rfl⟩, hitems⟩

end Steps

theorem exists_zero_bit {m : ℕ} (hne : ∀ k, m + 1 ≠ 2 ^ k) :
    ∃ j, 2 ^ j ≤ m ∧ m.testBit j = false := by
  by_contra hnone
  apply hne m.size
  have hones : m = 2 ^ m.size - 1 := by
    apply Nat.eq_of_testBit_eq
    intro j
    rw [Nat.testBit_two_pow_sub_one]
    by_cases hj : j < m.size
    · have hbit : m.testBit j ≠ false := fun hzero => hnone ⟨j, Nat.lt_size.mp hj, hzero⟩
      simpa [hj] using hbit
    · have hlow : m < 2 ^ j := by
        calc
          m < 2 ^ m.size := Nat.lt_size_self m
          _ ≤ 2 ^ j := Nat.pow_le_pow_right (by norm_num) (Nat.le_of_not_lt hj)
      simp [hj, Nat.testBit_lt_two_pow hlow]
  have hpos : 0 < 2 ^ m.size := Nat.two_pow_pos _
  omega

theorem exists_pushed (c : DataQueueConfig) (item : DataItem) {n : ℕ} (hn : n ≤ c.size) :
    ∃ s, (dataQueueSystem c).Reachable (NoWrappedFullPush c) s ∧
      s.pushed = List.replicate n item ∧ s.popped = [] ∧ s.putIndex = n ∧ s.getIndex = 0 := by
  have hlt := c.size_lt
  induction n with
  | zero => exact ⟨sampleInit, .start (init_sampleInit c), rfl, rfl, rfl, rfl⟩
  | succ n ih =>
    obtain ⟨s, hreach, hpushed, hpopped, hput, hget⟩ := ih (by lia)
    have hguard : NoWrappedFullPush c s (.push firstThread item 0) := by
      rintro - ⟨-, hwrapped⟩
      lia
    have hroom : indexDifference s ≠ c.size := by
      unfold indexDifference
      lia
    obtain ⟨s', hreach', hsame⟩ := exists_push hreach item hguard hroom
    refine ⟨s', hreach', ?_, ?_, ?_, ?_⟩
    · rw [hsame.pushed_eq, replicate_succ', ← hpushed]
      rfl
    · exact hsame.popped_eq.trans hpopped
    · rw [hsame.putIndex_eq, ← hput]
      exact Word.succ16_eq_of_lt (by lia)
    · exact hsame.getIndex_eq.trans hget

theorem exists_not_fifo_of_ne (hsize : ∀ k, c.size ≠ 2 ^ k) :
    ∃ s, (dataQueueSystem c).Reachable (NoWrappedFullPush c) s ∧ ¬Fifo c s := by
  have hpos := c.size_pos
  obtain ⟨j, hj, hzero⟩ : ∃ j, 2 ^ j ≤ c.size - 1 ∧ (c.size - 1).testBit j = false :=
    exists_zero_bit (fun k heq => hsize k (by lia))
  obtain ⟨s, hreach, hpushed, hpopped, hput, hget⟩ :=
    exists_pushed c ⟨0, 0⟩ (by lia : 2 ^ j ≤ c.size)
  have hguard : NoWrappedFullPush c s (.push firstThread ⟨1, 0⟩ 0) := by
    rintro - ⟨-, hwrapped⟩
    lia
  have hroom : indexDifference s ≠ c.size := by
    unfold indexDifference
    lia
  obtain ⟨s', hreach', hsame⟩ := exists_push hreach ⟨1, 0⟩ hguard hroom
  refine ⟨s', hreach', ?_⟩
  rw [hsame.fifo_iff]
  rintro ⟨hconserved, -⟩
  have hslot : s.putIndex &&& mask c = 0 := by
    rw [hput, mask, Nat.two_pow_and, hzero]
    rfl
  have hfirst := congrArg List.head? hconserved
  simp [putItem, unread, hpushed, hpopped, hslot, hget, range_succ_eq_map,
    head?_append, head?_replicate] at hfirst

/-- The order of the items is kept, by each step exactly when it does not push into a full
queue whose `put_index` has wrapped around, if and only if the size is a power of two. -/
theorem fifo_iff_pow (c : DataQueueConfig) :
    (∀ s, (dataQueueSystem c).Reachable (NoWrappedFullPush c) s →
      Fifo c s ∧ ∀ action, action.Enabled s →
        (Fifo c (execute c s action) ↔ NoWrappedFullPush c s action)) ↔ ∃ k, c.size = 2 ^ k := by
  constructor
  · intro hall
    by_contra hnone
    obtain ⟨s, hreach, hnot⟩ := exists_not_fifo_of_ne (fun k heq => hnone ⟨k, heq⟩)
    exact hnot (hall s hreach).1
  · rintro ⟨k, hsize⟩ s hreach
    obtain ⟨hfifo, hcounted⟩ := Fifo.of_reachable hsize hreach
    exact ⟨hfifo, fun action _ => hfifo.execute_iff hsize hcounted action⟩

section Wrap

variable {k n : ℕ} {item : DataItem}

section

variable (hsize : c.size = 2 ^ k)
include hsize

theorem exists_push_fifo
    (hreach : (dataQueueSystem c).Reachable (NoWrappedFullPush c) s)
    (hroom : s.pushed.length - s.popped.length < c.size) (item : DataItem) :
    ∃ s', (dataQueueSystem c).Reachable (NoWrappedFullPush c) s' ∧
      s'.pushed = s.pushed ++ [item] ∧ s'.popped = s.popped := by
  obtain ⟨hfifo, hcounted⟩ := Fifo.of_reachable hsize hreach
  obtain ⟨hdifference, hget, hput⟩ := hfifo.indices hcounted
  rw [length_unread] at hdifference
  have hguard : NoWrappedFullPush c s (.push firstThread item 0) := by
    rintro - ⟨hfull, -⟩
    unfold Full at hfull
    lia
  have hdiff : indexDifference s ≠ c.size := by
    unfold indexDifference
    lia
  obtain ⟨s', hreach', hsame⟩ := exists_push hreach item hguard hdiff
  exact ⟨s', hreach', hsame.pushed_eq, hsame.popped_eq⟩

theorem exists_cycled (item : DataItem) (n : ℕ) :
    ∃ s, (dataQueueSystem c).Reachable (NoWrappedFullPush c) s ∧
      s.pushed.length = n ∧ s.popped.length = n := by
  induction n with
  | zero => exact ⟨sampleInit, .start (init_sampleInit c), rfl, rfl⟩
  | succ n ih =>
    obtain ⟨s, hreach, hpushed, hpopped⟩ := ih
    have hpos := c.size_pos
    obtain ⟨s₁, hreach₁, hpushed₁, hpopped₁⟩ := exists_push_fifo hsize hreach (by omega) item
    obtain ⟨-, hcounted⟩ := Fifo.of_reachable hsize hreach₁
    have hlength : s₁.pushed.length = n + 1 := by
      rw [hpushed₁, length_append, hpushed]
      rfl
    have hlength' : s₁.popped.length = n := by rw [hpopped₁, hpopped]
    have hitem : s₁.getIndex ≠ s₁.putIndex := by
      rw [hcounted.getIndex_eq, hcounted.putIndex_eq, hlength, hlength']
      omega
    have hguard : NoWrappedFullPush c s₁ (.pop firstThread 0) := fun hpushes => hpushes.elim
    obtain ⟨s₂, hreach₂, hsame⟩ := exists_pop hreach₁ hguard hitem
    refine ⟨s₂, hreach₂, ?_, ?_⟩
    · rw [hsame.pushed_eq]
      exact hlength
    · rw [hsame.popped_eq, getItem, length_append, hlength']
      rfl

theorem exists_filled (item : DataItem) (count : ℕ) (hn : n ≤ c.size) :
    ∃ s, (dataQueueSystem c).Reachable (NoWrappedFullPush c) s ∧
      s.pushed.length = count + n ∧ s.popped.length = count := by
  induction n with
  | zero => exact exists_cycled hsize item count
  | succ n ih =>
    obtain ⟨s, hreach, hpushed, hpopped⟩ := ih (by omega)
    obtain ⟨s', hreach', hpushed', hpopped'⟩ := exists_push_fifo hsize hreach (by omega) item
    refine ⟨s', hreach', ?_, ?_⟩
    · rw [hpushed', length_append, hpushed]
      rfl
    · rw [hpopped', hpopped]

theorem exists_not_fifo_of_pow :
    ∃ s, (dataQueueSystem c).Reachable (fun _ _ => True) s ∧ ¬Fifo c s := by
  obtain ⟨s, hreach, hpushed, hpopped⟩ := exists_filled hsize ⟨0, 0⟩ 65535 (le_refl c.size)
  obtain ⟨hfifo, hcounted⟩ := Fifo.of_reachable hsize hreach
  have hlt := c.size_lt
  have hpos := c.size_pos
  have hnot : ¬NoWrappedFullPush c s (.push firstThread ⟨0, 0⟩ 0) := by
    intro hguard
    apply hguard trivial
    unfold Full
    rw [hcounted.getIndex_eq, hcounted.putIndex_eq, hpushed, hpopped]
    lia
  have henabled : Action.Enabled s (.push firstThread ⟨0, 0⟩ 0) := .inl rfl
  refine ⟨execute c s (.push firstThread ⟨0, 0⟩ 0), ?_, ?_⟩
  · exact (hreach.mono fun _ _ _ => trivial).next trivial ⟨henabled, rfl⟩
  · rw [hfifo.execute_iff hsize hcounted]
    exact hnot

end

end Wrap

def oddConfig : DataQueueConfig := ⟨3, 0, by norm_num, by norm_num, zero_lwm_lt⟩

/-- A size which is no power of two, and a queue whose indices have wrapped. -/
theorem items_overwritten :
    (∃ s, (dataQueueSystem oddConfig).Reachable (fun _ _ => True) s ∧
      s.pushed = [⟨8, 4⟩, ⟨12, 4⟩] ∧ s.popped = [⟨12, 4⟩] ∧ ¬Fifo oddConfig s) ∧
    ∃ s, (dataQueueSystem smallConfig).Reachable (fun _ _ => True) s ∧ ¬Fifo smallConfig s := by
  constructor
  · have hrun : (TransitionSystem.tryRun (fun s action => decide (Action.Enabled s action))
        (execute oddConfig)
        [.push firstThread ⟨8, 4⟩ 0, .push firstThread ⟨12, 4⟩ 0, .pop secondThread 0]
        sampleInit).map (fun s => (s.pushed, s.popped)) =
        some ([⟨8, 4⟩, ⟨12, 4⟩], [⟨12, 4⟩]) := by
      decide
    obtain ⟨s, hreach, hvalues⟩ := TransitionSystem.exists_tryRun (fun _ _ => True)
      (init_sampleInit oddConfig) hrun
      fun _ _ htest => ⟨trivial, of_decide_eq_true htest, rfl⟩
    rw [Prod.mk.injEq] at hvalues
    refine ⟨s, hreach, hvalues.1, hvalues.2, ?_⟩
    rintro ⟨hconserved, -⟩
    rw [hvalues.1, hvalues.2] at hconserved
    simp at hconserved
  · have hsize : smallConfig.size = 2 ^ 0 := by norm_num [smallConfig]
    exact exists_not_fifo_of_pow hsize

end RtThread.DataQueue
