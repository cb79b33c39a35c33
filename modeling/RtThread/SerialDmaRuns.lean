import RtThread.SerialDmaModel

/-!
# Every buffer once and in order

A thread pushes its buffer and starts the transfer in two sections.  If another thread
claims the engine in between, or the handler has transmitted the buffer meanwhile, the
transfer which is started is not the one of the buffer at the head of `tx_dq`.  When every
transfer is the one of the head, the transfers are those which were pushed, in order.
-/

namespace RtThread.SerialDma

open Function List TransitionSystem

open DataQueue (DataItem)

/-- The buffers are transmitted in the order in which they were pushed, each once, and all
of them when the engine is idle and no thread is in `rt_serial_write`.  There is at most
one transfer outstanding, and `tx_complete` is called with the buffers whose transfers are
complete, in order. -/
structure TransmittedInOrder (s : SerialState) : Prop where
  inOrder : s.transmitted <+: s.pushed
  all : s.dmaFlag = false → (∀ t, s.frame t = none) → s.transmitted = s.pushed
  single : s.outstanding.length ≤ 1
  reported : s.reported <+: s.completed.map fun item => some item.dataPtr
  allReported : s.isr = .idle → s.interrupts = 0 →
    s.reported = s.completed.map fun item => some item.dataPtr

/-- A thread starts the transfer of the head of the queue, and the handler does not leave
the engine idle with a buffer in the queue, unless a thread has still to claim it. -/
def HeadIsTransmitted (s : SerialState) : Action → Prop
  | .transmit _ item => s.txDq.head? = some item
  | .isrNext _ none => s.txDq = [] ∨ ∃ t, s.frame t ≠ none
  | _ => True

variable {s s' : SerialState} {t u : Thread} {item : DataItem} {last next : Option DataItem}

inductive Owner where
  | nobody
  | thread (t : Thread)
  | hardware (item : DataItem)
  | interrupt (item : DataItem)
  | handler

namespace Owner

def outstanding : Owner → List DataItem
  | hardware item => [item]
  | _ => []

def unhandled : Owner → List DataItem
  | interrupt item => [item]
  | _ => []

def transfer (owner : Owner) : List DataItem := owner.outstanding ++ owner.unhandled

end Owner

def Isr.Settled : Isr → Prop
  | .idle => True
  | .leaving _ => True
  | _ => False

def Isr.toReport : Isr → List (Option UInt32)
  | .idle => []
  | .popped last => [last.map DataItem.dataPtr]
  | .peaked last _ => [last.map DataItem.dataPtr]
  | .leaving last => [last.map DataItem.dataPtr]

structure Owned (s : SerialState) (owner : Owner) : Prop where
  flag : s.dmaFlag = false ↔ owner = .nobody
  claims : ∀ t item, s.frame t = some (.claimed item) → owner = .thread t
  outstanding : s.outstanding = owner.outstanding
  interrupts : s.interrupts = owner.unhandled.length
  settled : s.isr.Settled ↔ owner ≠ .handler
  peaked : ∀ last item, s.isr = .peaked last (some item) → s.txDq.head? = some item
  head : ∀ item ∈ owner.transfer, s.txDq.head? = some item
  transmitted : s.transmitted = s.popped ++ owner.transfer
  completed : s.completed = s.popped ++ owner.unhandled

/-- The transfer under way belongs to one owner and is at the head of the queue. -/
structure SerialInv (s : SerialState) : Prop where
  fifo : s.pushed = s.popped ++ s.txDq
  reports : s.reported ++ s.isr.toReport = s.popped.map fun item => some item.dataPtr
  remembered : s.dmaFlag = false → (∀ t, s.frame t = none) → s.txDq = []
  owned : ∃ owner, Owned s owner

variable {owner : Owner}

theorem append_head_prefix_iff {l queue : List DataItem} :
    l ++ [item] <+: l ++ queue ↔ queue.head? = some item := by
  rw [prefix_append_right_inj]
  cases queue with
  | nil => simp
  | cons first rest => simp [eq_comm]

theorem claimed_of_update {f : Option WriteFrame} (hf : ∀ item, f ≠ some (.claimed item))
    (hclaimed : update s.frame t f u = some (.claimed item)) :
    s.frame u = some (.claimed item) := by
  by_cases hut : u = t
  · rw [hut, update_self] at hclaimed
    exact absurd hclaimed (hf item)
  · exact (update_of_ne hut _ _).symm.trans hclaimed

namespace Owner

theorem transfer_eq (owner : Owner) : owner.transfer = [] ∨ ∃ item, owner.transfer = [item] := by
  cases owner with
  | nobody | thread t => exact .inl rfl
  | hardware item | interrupt item => exact .inr ⟨item, rfl⟩
  | handler => exact .inl rfl

theorem length_outstanding_le (owner : Owner) : owner.outstanding.length ≤ 1 := by
  cases owner <;> simp [outstanding]

end Owner

theorem Owned.keep (howned : Owned s owner) (hflag : s'.dmaFlag = s.dmaFlag)
    (hclaims : ∀ t item, s'.frame t = some (.claimed item) → s.frame t = some (.claimed item))
    (hhead : ∀ item, s.txDq.head? = some item → s'.txDq.head? = some item)
    (houtstanding : s'.outstanding = s.outstanding) (hinterrupts : s'.interrupts = s.interrupts)
    (hsettled : s'.isr.Settled ↔ s.isr.Settled)
    (hpeaked : ∀ last item, s'.isr = .peaked last (some item) → s'.txDq.head? = some item)
    (hpopped : s'.popped = s.popped) (htransmitted : s'.transmitted = s.transmitted)
    (hcompleted : s'.completed = s.completed) : Owned s' owner where
  flag := by rw [hflag, howned.flag]
  claims t item hframe := howned.claims t item (hclaims t item hframe)
  outstanding := houtstanding.trans howned.outstanding
  interrupts := hinterrupts.trans howned.interrupts
  settled := hsettled.trans howned.settled
  peaked := hpeaked
  head item hmem := hhead item (howned.head item hmem)
  transmitted := by rw [htransmitted, hpopped, howned.transmitted]
  completed := by rw [hcompleted, hpopped, howned.completed]

theorem Owned.owner_of_peaked (howned : Owned s owner) (hisr : s.isr = .peaked last next) :
    owner = .handler := by
  by_contra hne
  have hsettled := howned.settled.mpr hne
  rw [hisr] at hsettled
  exact hsettled

namespace SerialInv

section

variable (hinv : SerialInv s)
include hinv

theorem transmittedInOrder : TransmittedInOrder s := by
  obtain ⟨owner, howned⟩ := hinv.owned
  have hreported : s.reported <+: s.popped.map fun item => some item.dataPtr := by
    rw [← hinv.reports]
    exact prefix_append _ _
  constructor
  · rw [howned.transmitted, hinv.fifo]
    obtain hnil | ⟨item, hitem⟩ := owner.transfer_eq
    · rw [hnil, append_nil]
      exact prefix_append _ _
    · rw [hitem]
      exact append_head_prefix_iff.mpr (howned.head item (by simp [hitem]))
  · intro hflag hnone
    have howner := howned.flag.mp hflag
    subst howner
    rw [howned.transmitted, hinv.fifo, hinv.remembered hflag hnone]
    rfl
  · rw [howned.outstanding]
    exact owner.length_outstanding_le
  · rw [howned.completed, map_append]
    exact hreported.trans (prefix_append _ _)
  · intro hisr hinterrupts
    have hnil : owner.unhandled = [] := by
      rw [← length_eq_zero_iff, ← howned.interrupts, hinterrupts]
    have hreports := hinv.reports
    rw [hisr, Isr.toReport, append_nil] at hreports
    rw [howned.completed, hnil, append_nil, hreports]

theorem pushSection (t : Thread) (item : DataItem) :
    SerialInv (SerialDma.pushSection s t item) := by
  unfold SerialDma.pushSection
  by_cases hsize : item.dataSize = 0
  · rw [if_pos hsize]
    exact hinv
  rw [if_neg hsize]
  unfold rtDataQueuePush
  by_cases hroom : s.txDq.length < txDataqueueSize
  · simp only [if_pos hroom]
    obtain ⟨owner, howned⟩ := hinv.owned
    have hhead : ∀ first, s.txDq.head? = some first → (s.txDq ++ [item]).head? = some first := by
      intro first hfirst
      rw [head?_append, hfirst]
      rfl
    constructor
    · simp only [hinv.fifo, append_assoc]
    · exact hinv.reports
    · intro _ hnone
      have hsome := hnone t
      simp at hsome
    · refine ⟨owner, howned.keep rfl ?_ hhead rfl rfl Iff.rfl ?_ rfl rfl rfl⟩
      · exact fun u first hu => claimed_of_update (by simp) hu
      · exact fun last first hpeaked => hhead first (howned.peaked last first hpeaked)
  · simp only [if_neg hroom]
    exact hinv

theorem claimSection (t : Thread) (item : DataItem) :
    SerialInv (SerialDma.claimSection s t item) := by
  unfold SerialDma.claimSection
  obtain ⟨owner, howned⟩ := hinv.owned
  by_cases hflag : s.dmaFlag = false
  · rw [if_pos hflag]
    have howner := howned.flag.mp hflag
    subst howner
    refine ⟨hinv.fifo, hinv.reports, by simp, .thread t, ?_⟩
    constructor
    · simp
    · intro u first hu
      by_cases hut : u = t
      · rw [hut]
      · have hold := (update_of_ne hut _ _).symm.trans hu
        nomatch howned.claims u first hold
    · exact howned.outstanding
    · exact howned.interrupts
    · simpa using howned.settled
    · exact howned.peaked
    · exact howned.head
    · exact howned.transmitted
    · exact howned.completed
  · rw [if_neg hflag]
    refine ⟨hinv.fifo, hinv.reports, fun hidle => absurd hidle hflag, owner, ?_⟩
    refine howned.keep rfl ?_ (fun _ h => h) rfl rfl Iff.rfl howned.peaked rfl rfl rfl
    exact fun u first hu => claimed_of_update (by simp) hu

theorem transmitClaimed (hframe : s.frame t = some (.claimed item))
    (hhead : s.txDq.head? = some item) : SerialInv (SerialDma.transmitClaimed s t item) := by
  obtain ⟨owner, howned⟩ := hinv.owned
  have howner := howned.claims t item hframe
  subst howner
  have hflag : s.dmaFlag ≠ false := fun hidle => by simpa using howned.flag.mp hidle
  refine ⟨hinv.fifo, hinv.reports, fun hidle => absurd hidle hflag, .hardware item, ?_⟩
  constructor
  · exact iff_of_false hflag Owner.noConfusion
  · intro u first hu
    have hold := claimed_of_update (by simp) hu
    have hut : u = t := by simpa [eq_comm] using howned.claims u first hold
    simp [SerialDma.transmitClaimed, dmaTransmit, hut] at hu
  · simp [SerialDma.transmitClaimed, dmaTransmit, howned.outstanding, Owner.outstanding]
  · exact howned.interrupts
  · exact howned.settled.trans (by simp)
  · exact howned.peaked
  · intro first hfirst
    rw [mem_singleton.mp hfirst]
    exact hhead
  · simp [SerialDma.transmitClaimed, dmaTransmit, howned.transmitted, Owner.transfer,
      Owner.outstanding, Owner.unhandled]
  · exact howned.completed

theorem transferDone (hmem : item ∈ s.outstanding) :
    SerialInv (execute s (.transferDone item)) := by
  obtain ⟨owner, howned⟩ := hinv.owned
  rw [howned.outstanding] at hmem
  cases owner with
  | nobody | thread t | interrupt item | handler => cases hmem
  | hardware first =>
    have hfirst : item = first := mem_singleton.mp hmem
    subst hfirst
    refine ⟨hinv.fifo, hinv.reports, hinv.remembered, .interrupt item, ?_⟩
    constructor
    · exact howned.flag.trans (by simp)
    · intro u first hu
      nomatch howned.claims u first hu
    · simp [execute, howned.outstanding, Owner.outstanding]
    · simp [execute, howned.interrupts, Owner.unhandled]
    · exact howned.settled.trans (by simp)
    · exact howned.peaked
    · exact howned.head
    · exact howned.transmitted
    · simp [execute, howned.completed, Owner.unhandled]

theorem isrPop (hpending : 0 < s.interrupts) (hisr : s.isr = .idle) :
    SerialInv (SerialDma.isrPop s) := by
  obtain ⟨owner, howned⟩ := hinv.owned
  rw [howned.interrupts] at hpending
  cases owner with
  | nobody | thread t | hardware item | handler => exact absurd hpending (by simp [Owner.unhandled])
  | interrupt item =>
    have hhead := howned.head item (by simp [Owner.transfer, Owner.unhandled])
    obtain ⟨rest, hqueue⟩ := head?_eq_some_iff.mp hhead
    have hpop : SerialDma.isrPop s =
        { s with
          txDq := rest
          interrupts := s.interrupts - 1
          isr := .popped (some item)
          popped := s.popped ++ [item] } := by
      simp only [SerialDma.isrPop, hqueue, rtDataQueuePop, Option.toList_some]
    rw [hpop]
    have hflag : s.dmaFlag ≠ false := fun hidle => by simpa using howned.flag.mp hidle
    refine ⟨?_, ?_, fun hidle => absurd hidle hflag, .handler, ?_⟩
    · simp [hinv.fifo, hqueue]
    · have hreports := hinv.reports
      rw [hisr, Isr.toReport, append_nil] at hreports
      simp [hreports, Isr.toReport]
    · constructor
      · exact howned.flag.trans (by simp)
      · intro u first hu
        nomatch howned.claims u first hu
      · exact howned.outstanding
      · simp [howned.interrupts, Owner.unhandled]
      · simp [Isr.Settled]
      · simp
      · simp [Owner.transfer, Owner.outstanding, Owner.unhandled]
      · simp [howned.transmitted, Owner.transfer, Owner.outstanding, Owner.unhandled]
      · simp [howned.completed, Owner.unhandled]

theorem isrPeak (hisr : s.isr = .popped last) : SerialInv (SerialDma.isrPeak s last) := by
  obtain ⟨owner, howned⟩ := hinv.owned
  refine ⟨hinv.fifo, ?_, hinv.remembered, owner, ?_⟩
  · have hreports := hinv.reports
    rw [hisr] at hreports
    exact hreports
  · refine howned.keep rfl (fun _ _ h => h) (fun _ h => h) rfl rfl ?_ ?_ rfl rfl rfl
    · rw [hisr]
      exact Iff.rfl
    · intro last' first hpeaked
      simp only [SerialDma.isrPeak, rtDataQueuePeak, Isr.peaked.injEq] at hpeaked
      exact hpeaked.2

theorem isrNext (hisr : s.isr = .peaked last next)
    (hguard : HeadIsTransmitted s (.isrNext last next)) :
    SerialInv (SerialDma.isrNext s last next) := by
  obtain ⟨owner, howned⟩ := hinv.owned
  have howner := howned.owner_of_peaked hisr
  subst howner
  have hreports := hinv.reports
  rw [hisr] at hreports
  have hflag : s.dmaFlag ≠ false := fun hidle => by simpa using howned.flag.mp hidle
  cases next with
  | none =>
    refine ⟨hinv.fifo, hreports, ?_, .nobody, ?_⟩
    · intro _ hnone
      obtain hempty | ⟨u, hu⟩ := hguard
      · exact hempty
      · exact absurd (hnone u) hu
    · constructor
      · exact iff_of_true rfl rfl
      · intro u first hu
        nomatch howned.claims u first hu
      · exact howned.outstanding
      · exact howned.interrupts
      · exact iff_of_true trivial Owner.noConfusion
      · exact fun _ _ h => Isr.noConfusion h
      · exact howned.head
      · exact howned.transmitted
      · exact howned.completed
  | some first =>
    refine ⟨hinv.fifo, hreports, fun hidle => absurd hidle hflag, .hardware first, ?_⟩
    have hhead := howned.peaked last first hisr
    constructor
    · exact iff_of_false hflag Owner.noConfusion
    · intro u item hu
      nomatch howned.claims u item hu
    · simp [SerialDma.isrNext, dmaTransmit, howned.outstanding, Owner.outstanding]
    · exact howned.interrupts
    · exact iff_of_true trivial Owner.noConfusion
    · exact fun _ _ h => Isr.noConfusion h
    · intro item hitem
      rw [mem_singleton.mp hitem]
      exact hhead
    · simp [SerialDma.isrNext, dmaTransmit, howned.transmitted, Owner.transfer,
        Owner.outstanding, Owner.unhandled]
    · exact howned.completed

theorem isrComplete (hisr : s.isr = .leaving last) : SerialInv (SerialDma.isrComplete s last) := by
  obtain ⟨owner, howned⟩ := hinv.owned
  have hreports := hinv.reports
  rw [hisr, Isr.toReport] at hreports
  refine ⟨hinv.fifo, ?_, hinv.remembered, owner, ?_⟩
  · rw [SerialDma.isrComplete, Isr.toReport, append_nil]
    exact hreports
  · refine howned.keep rfl (fun _ _ h => h) (fun _ h => h) rfl rfl ?_ ?_ rfl rfl rfl
    · rw [hisr]
      exact Iff.rfl
    · exact fun _ _ h => Isr.noConfusion h

theorem execute {action : Action} (henabled : action.Enabled s)
    (hguard : HeadIsTransmitted s action) : SerialInv (execute s action) := by
  cases action with
  | push t item => exact hinv.pushSection t item
  | claim t item => exact hinv.claimSection t item
  | transmit t item => exact hinv.transmitClaimed henabled hguard
  | transferDone item => exact hinv.transferDone henabled
  | isrPop => exact hinv.isrPop henabled.1 henabled.2
  | isrPeak last => exact hinv.isrPeak henabled
  | isrNext last next => exact hinv.isrNext henabled hguard
  | isrComplete last => exact hinv.isrComplete henabled

theorem headIsTransmitted {action : Action} (henabled : action.Enabled s)
    (hordered : TransmittedInOrder (SerialDma.execute s action)) :
    HeadIsTransmitted s action := by
  obtain ⟨owner, howned⟩ := hinv.owned
  cases action with
  | transmit t item =>
    have howner := howned.claims t item henabled
    subst howner
    have hinorder := hordered.inOrder
    simp only [SerialDma.execute, SerialDma.transmitClaimed, dmaTransmit, howned.transmitted,
      hinv.fifo] at hinorder
    have hnil : (Owner.thread t).transfer = [] := rfl
    rw [hnil, append_nil] at hinorder
    exact append_head_prefix_iff.mp hinorder
  | isrNext last next =>
    cases next with
    | some item => trivial
    | none =>
      refine or_iff_not_imp_right.mpr fun hnone => ?_
      push Not at hnone
      have howner := howned.owner_of_peaked henabled
      subst howner
      have hall : s.transmitted = s.pushed := hordered.all rfl hnone
      rw [howned.transmitted, hinv.fifo] at hall
      exact (append_cancel_left hall).symm
  | push t item | claim t item | transferDone item | isrPop | isrPeak last | isrComplete last =>
    trivial

end

end SerialInv

/-- In every run in which the head is transmitted, every buffer is transmitted once and in
order; and such a run stays so by exactly these steps. -/
theorem transmittedInOrder_of_headIsTransmitted (s : SerialState)
    (hreach : serialSystem.Reachable HeadIsTransmitted s) :
    TransmittedInOrder s ∧ ∀ action, action.Enabled s →
      (TransmittedInOrder (execute s action) ↔ HeadIsTransmitted s action) := by
  have hinv : SerialInv s := by
    apply hreach.invariant (P := SerialInv)
    · rintro s ⟨hqueue, hflag, hframe, houtstanding, hinterrupts, hisr, hpushed, hpopped,
        htransmitted, hcompleted, hreported⟩
      refine ⟨by simp [hqueue, hpushed, hpopped], ?_, fun _ _ => hqueue, .nobody, ?_⟩
      · simp [hreported, hisr, hpopped, Isr.toReport]
      · constructor
        · exact iff_of_true hflag rfl
        · simp [hframe]
        · exact houtstanding
        · exact hinterrupts
        · simp [hisr, Isr.Settled]
        · simp [hisr]
        · simp [Owner.transfer, Owner.outstanding, Owner.unhandled]
        · simp [htransmitted, hpopped, Owner.transfer, Owner.outstanding, Owner.unhandled]
        · simp [hcompleted, hpopped, Owner.unhandled]
    · rintro s action s' hinv hguard ⟨henabled, rfl⟩
      exact hinv.execute henabled hguard
  refine ⟨hinv.transmittedInOrder, fun action henabled => ⟨?_, ?_⟩⟩
  · exact hinv.headIsTransmitted henabled
  · intro hguard
    exact (hinv.execute henabled hguard).transmittedInOrder

instance (s : SerialState) (action : Action) : Decidable (action.Enabled s) :=
  match action with
  | .push _ _ => inferInstanceAs (Decidable (_ = _))
  | .claim _ _ => inferInstanceAs (Decidable (_ = _))
  | .transmit _ _ => inferInstanceAs (Decidable (_ = _))
  | .transferDone item => inferInstanceAs (Decidable (item ∈ s.outstanding))
  | .isrPop => inferInstanceAs (Decidable (_ ∧ _))
  | .isrPeak _ => inferInstanceAs (Decidable (_ = _))
  | .isrNext _ _ => inferInstanceAs (Decidable (_ = _))
  | .isrComplete _ => inferInstanceAs (Decidable (_ = _))

def sampleInit : SerialState where
  txDq := []
  dmaFlag := false
  frame := fun _ => none
  outstanding := []
  interrupts := 0
  isr := .idle
  pushed := []
  popped := []
  transmitted := []
  completed := []
  reported := []

theorem init_sampleInit : serialSystem.init sampleInit :=
  ⟨rfl, rfl, fun _ => rfl, rfl, rfl, rfl, rfl, rfl, rfl, rfl, rfl⟩

def headTest (s : SerialState) : Action → Bool
  | .transmit _ item => decide (s.txDq.head? = some item)
  | .isrNext _ none => s.txDq.isEmpty
  | _ => true

theorem headIsTransmitted_of_headTest {action : Action} (htest : headTest s action = true) :
    HeadIsTransmitted s action := by
  cases action with
  | transmit t item =>
    have hhead : s.txDq.head? = some item := of_decide_eq_true htest
    exact hhead
  | isrNext last next =>
    cases next with
    | none => exact .inl (isEmpty_iff.mp htest)
    | some item => trivial
  | push t item | claim t item | transferDone item | isrPop | isrPeak last | isrComplete last =>
    trivial

def handle (item : DataItem) (next : Option DataItem) : List Action :=
  [.transferDone item, .isrPop, .isrPeak (some item), .isrNext (some item) next,
    .isrComplete (some item)]

theorem transmittedInOrder_in_sample : ∃ s, serialSystem.Reachable HeadIsTransmitted s ∧
      s.transmitted = [⟨8, 4⟩, ⟨12, 4⟩] ∧ s.reported = [some 8, some 12] ∧
      (TransmittedInOrder s ∧ ∀ action, action.Enabled s →
        (TransmittedInOrder (execute s action) ↔ HeadIsTransmitted s action)) := by
  have hrun : (tryRun
      (fun s action => decide (action.Enabled s) && headTest s action) execute
      ([.push firstThread ⟨8, 4⟩, .claim firstThread ⟨8, 4⟩, .transmit firstThread ⟨8, 4⟩,
        .push secondThread ⟨12, 4⟩, .claim secondThread ⟨12, 4⟩] ++
        handle ⟨8, 4⟩ (some ⟨12, 4⟩) ++ handle ⟨12, 4⟩ none) sampleInit).map
      (fun s => (s.transmitted, s.reported)) =
      some ([⟨8, 4⟩, ⟨12, 4⟩], [some 8, some 12]) := by
    decide
  have hsound : ∀ s action, (decide (action.Enabled s) && headTest s action) = true →
      HeadIsTransmitted s action ∧ serialSystem.step s action (execute s action) := by
    intro s action htest
    rw [Bool.and_eq_true] at htest
    exact ⟨headIsTransmitted_of_headTest htest.2, of_decide_eq_true htest.1, rfl⟩
  obtain ⟨s, hreach, hvalue⟩ := exists_tryRun HeadIsTransmitted
    init_sampleInit hrun hsound
  rw [Prod.mk.injEq] at hvalue
  exact ⟨s, hreach, hvalue.1, hvalue.2, transmittedInOrder_of_headIsTransmitted s hreach⟩

/-- Two threads push, and the second one claims the engine first: its buffer is transmitted
twice and the other one never, which is reported as complete.  And the handler transmits a
buffer before its writer finds the engine idle and transmits it again. -/
theorem second_writer_claims_first :
    (∃ s, serialSystem.Reachable (fun _ _ => True) s ∧
      s.pushed = [⟨8, 4⟩, ⟨12, 4⟩] ∧ s.txDq = [] ∧ s.outstanding = [] ∧
      s.transmitted = [⟨12, 4⟩, ⟨12, 4⟩] ∧ s.reported = [some 8, some 12]) ∧
    ∃ s, serialSystem.Reachable (fun _ _ => True) s ∧ s.pushed = [⟨8, 4⟩, ⟨12, 4⟩] ∧ s.txDq = [] ∧
      s.transmitted = [⟨8, 4⟩, ⟨12, 4⟩, ⟨12, 4⟩] := by
  constructor
  · have hrun : (tryRun (fun s action => decide (action.Enabled s)) execute
        ([.push firstThread ⟨8, 4⟩, .push secondThread ⟨12, 4⟩, .claim secondThread ⟨12, 4⟩,
          .transmit secondThread ⟨12, 4⟩, .claim firstThread ⟨8, 4⟩,
          .transferDone ⟨12, 4⟩, .isrPop, .isrPeak (some ⟨8, 4⟩),
          .isrNext (some ⟨8, 4⟩) (some ⟨12, 4⟩), .isrComplete (some ⟨8, 4⟩)] ++
          handle ⟨12, 4⟩ none) sampleInit).map
        (fun s => (s.pushed, s.txDq, s.outstanding, s.transmitted, s.reported)) =
        some ([⟨8, 4⟩, ⟨12, 4⟩], [], [], [⟨12, 4⟩, ⟨12, 4⟩], [some 8, some 12]) := by
      rfl
    obtain ⟨s, hreach, hvalue⟩ := exists_tryRun (fun _ _ => True)
      init_sampleInit hrun fun _ _ htest => ⟨trivial, of_decide_eq_true htest, rfl⟩
    simp only [Prod.mk.injEq] at hvalue
    exact ⟨s, hreach, hvalue⟩
  · have hrun : (tryRun (fun s action => decide (action.Enabled s)) execute
        ([.push firstThread ⟨8, 4⟩, .claim firstThread ⟨8, 4⟩, .transmit firstThread ⟨8, 4⟩,
          .push secondThread ⟨12, 4⟩] ++
          handle ⟨8, 4⟩ (some ⟨12, 4⟩) ++ handle ⟨12, 4⟩ none ++
          [.claim secondThread ⟨12, 4⟩, .transmit secondThread ⟨12, 4⟩]) sampleInit).map
        (fun s => (s.pushed, s.txDq, s.transmitted)) =
        some ([⟨8, 4⟩, ⟨12, 4⟩], [], [⟨8, 4⟩, ⟨12, 4⟩, ⟨12, 4⟩]) := by
      decide
    obtain ⟨s, hreach, hvalue⟩ := exists_tryRun (fun _ _ => True)
      init_sampleInit hrun fun _ _ htest => ⟨trivial, of_decide_eq_true htest, rfl⟩
    simp only [Prod.mk.injEq] at hvalue
    exact ⟨s, hreach, hvalue⟩

end RtThread.SerialDma
