import RtThread.PipeModel

/-!
# The threads which wait for a pipe

A transfer wakes up one thread of the other side.  When it leaves something for its own
side, nobody wakes up the threads which wait there, unless the other side goes on or a
resumed thread is still to run.  A request whose size is a multiple of 65536 is taken for
one of no bytes.
-/

namespace RtThread.Pipe

open Function Option Ipc RingBuffer TransitionSystem

def Quiet (s : PipeState) : Prop :=
  ∀ t, (s.frame t).isSome → (s.core.threads t).stat = .suspend

/-- The threads were suspended when nothing was available, and those which are suspended
while no resumed thread is to run have nothing to wait for. -/
structure WaitsOnlyWhenMust (s : PipeState) : Prop where
  suspended : ∀ w ∈ s.waits, w.2 = 0
  waiting : Quiet s → ∀ side, s.core.wait side ≠ [] → available s.ringbuffer side = 0

def OtherPending (s : PipeState) (t : Thread) : Prop :=
  ∃ u, u ≠ t ∧ (s.frame u).isSome ∧ (s.core.threads u).stat = .ready

/-- The request is not taken for an empty one, and if it leaves something while another
thread of its side is suspended, then a thread of the other side or a resumed one goes on. -/
def Suffices (s : PipeState) (t : Thread) (r : Request) : Prop :=
  available s.ringbuffer r.side = 0 ∨ toLength r.size ≠ 0 ∧
      (available s.ringbuffer r.side ≤ toLength r.size ∨
        s.core.wait r.side = [] ∨ s.core.wait r.side.peer ≠ [] ∨ OtherPending s t)

def TransferSuffices (s : PipeState) (action : Action) : Prop :=
  ∀ p ∈ action.request s, Suffices s p.1 p.2

variable {s s' : PipeState} {t u : Thread} {r : Request} {side : Side} {rb : RtRingbuffer}

@[simp] theorem Side.peer_peer (side : Side) : side.peer.peer = side := by
  cases side <;> rfl

theorem Side.peer_ne (side : Side) : side.peer ≠ side := by
  cases side <;> exact Side.noConfusion

theorem Side.eq_or_eq_peer (side side' : Side) : side' = side ∨ side' = side.peer := by
  cases side <;> cases side' <;> simp [Side.peer]

theorem available_add (hvalid : Valid rb) (side : Side) :
    available rb side + available rb side.peer = rb.bufferSize := by
  have hle := hvalid.bounded.dataLen_le
  cases side with
  | read => exact Nat.add_sub_of_le hle
  | write => exact Nat.sub_add_cancel hle

theorem size_transfer (rb : RtRingbuffer) (r : Request) :
    (transfer rb r).1.bufferSize = rb.bufferSize := by
  cases r with
  | read size => exact size_execute rb (.get size)
  | write buffer => exact size_execute rb (.put buffer)

/-- A round moves what there is of the request. -/
theorem transfer_spec (hvalid : Valid rb) (r : Request) :
    (transfer rb r).2.2 = min (toLength r.size) (available rb r.side) ∧ Valid (transfer rb r).1 ∧
      available (transfer rb r).1 r.side =
        available rb r.side - min (toLength r.size) (available rb r.side) := by
  cases r with
  | read size =>
    obtain ⟨hresult, hvalid', hcontents⟩ := hvalid.get size
    refine ⟨congrArg Prod.snd hresult, hvalid', ?_⟩
    have hlength := congrArg List.length hcontents
    rw [List.length_drop, Bounded.length_contents, Bounded.length_contents] at hlength
    exact hlength
  | write buffer =>
    obtain ⟨hcount, hvalid', hcontents⟩ := hvalid.put (toLength_le buffer.length)
    have hsize := size_transfer rb (.write buffer)
    refine ⟨hcount, hvalid', ?_⟩
    have hlength := congrArg List.length hcontents
    rw [List.length_append, List.length_take, Bounded.length_contents,
      Bounded.length_contents] at hlength
    have hle := toLength_le buffer.length
    simp only [available, transfer, Request.side, Request.size, rtRingbufferSpaceLen]
      at hlength hsize ⊢
    lia

theorem available_peer_pos (hvalid : Valid rb) (hcount : 0 < (transfer rb r).2.2) :
    0 < available (transfer rb r).1 r.side.peer := by
  obtain ⟨hmin, hvalid', havailable⟩ := transfer_spec hvalid r
  have hbefore := available_add hvalid r.side
  have hafter := available_add hvalid' r.side
  have hsize := size_transfer rb r
  lia

def Pending (s : PipeState) (side : Side) : Prop :=
  ∃ t r, s.frame t = some r ∧ r.side = side ∧ (s.core.threads t).stat = .ready

/-- A thread waits at a side only while it must, or a wake-up for it is pending. -/
structure PipeInv (s : PipeState) : Prop where
  valid : Valid s.ringbuffer
  linked : Linked s.core
  framed : ∀ side, ∀ t ∈ s.core.wait side, ∃ r, s.frame t = some r ∧ r.side = side
  awakened : ∀ side, s.core.wait side ≠ [] → available s.ringbuffer side.peer = 0 → Pending s side
  waits : WaitsOnlyWhenMust s

structure Running (s : PipeState) (t : Thread) (r : Request) : Prop where
  valid : Valid s.ringbuffer
  linked : Linked s.core
  framed : ∀ side, ∀ t ∈ s.core.wait side, ∃ r, s.frame t = some r ∧ r.side = side
  awakened : s.core.wait r.side.peer ≠ [] → available s.ringbuffer r.side = 0 →
    Pending s r.side.peer
  suspended : ∀ w ∈ s.waits, w.2 = 0
  ready : (s.core.threads t).stat = .ready
  frame : s.frame t = none

theorem ThreadStat.eq_suspend {stat : ThreadStat} (hne : stat ≠ .ready) : stat = .suspend := by
  cases stat with
  | ready => contradiction
  | suspend => rfl

theorem Pending.ne (hpending : Pending s side) (hframe : s.frame t = none) :
    ∃ u r, u ≠ t ∧ s.frame u = some r ∧ r.side = side ∧ (s.core.threads u).stat = .ready := by
  obtain ⟨u, r, hsome, hside, hready⟩ := hpending
  have hut : u ≠ t := by
    intro hut
    simp [hut, hframe] at hsome
  exact ⟨u, r, hut, hsome, hside, hready⟩

theorem Pending.not_quiet (hpending : Pending s side) : ¬Quiet s := by
  intro hquiet
  obtain ⟨t, r, hsome, -, hready⟩ := hpending
  have hstat := hquiet t (by simp [hsome])
  rw [hready] at hstat
  exact ThreadStat.noConfusion hstat

theorem blockingRound_wait (hcount : (transfer s.ringbuffer r).2.2 = 0) : (blockingRound s t r).1 =
      { core := asleep s.core r.side .fifo t 0
        ringbuffer := (transfer s.ringbuffer r).1
        frame := update s.frame t (some r)
        waits := s.waits ++ [(r.side, available s.ringbuffer r.side)] } := by
  simp only [blockingRound, hcount, if_true, asleep, startTimer, lt_irrefl, if_false]

theorem blockingRound_move (hcount : (transfer s.ringbuffer r).2.2 ≠ 0) : (blockingRound s t r).1 =
      { s with
        core := rtIpcListResume r.side.peer s.core
        ringbuffer := (transfer s.ringbuffer r).1 } := by
  simp only [blockingRound, if_neg hcount, resumePeer]

namespace Running

section

variable (hrunning : Running s t r)
include hrunning

theorem wait (hnone : available s.ringbuffer r.side = 0) :
    PipeInv (blockingRound s t r).1 := by
  obtain ⟨hcount, hvalid, havailable⟩ := transfer_spec hrunning.valid r
  rw [hnone, Nat.min_zero] at hcount havailable
  obtain ⟨hperm, hwait⟩ := asleep_wait s.core r.side .fifo t 0
  obtain ⟨hstat, -, -, hthreads⟩ := asleep_threads r.side .fifo 0 hrunning.ready
  have hpeer : s.core.wait r.side.peer ≠ [] → Pending (blockingRound s t r).1 r.side.peer := by
    intro hne
    obtain ⟨u, r', hut, hsome, hside, hready⟩ := (hrunning.awakened hne hnone).ne hrunning.frame
    rw [blockingRound_wait hcount]
    refine ⟨u, r', ?_, hside, ?_⟩
    · exact (update_of_ne hut _ _).trans hsome
    · exact (congrArg ThreadBlock.stat (hthreads u hut)).trans hready
  have hframed : ∀ side, ∀ u ∈ s.core.wait side,
      ∃ r', update s.frame t (some r) u = some r' ∧ r'.side = side := by
    intro side u hu
    obtain ⟨r', hsome, hside⟩ := hrunning.framed side u hu
    have hut : u ≠ t := by
      intro hut
      simp [hut, hrunning.frame] at hsome
    exact ⟨r', (update_of_ne hut _ _).trans hsome, hside⟩
  rw [blockingRound_wait hcount] at hpeer ⊢
  have hsum := available_add hvalid r.side
  have hpos := hvalid.bounded.size_pos
  constructor
  · exact hvalid
  · change Linked (asleep s.core r.side .fifo t 0)
    exact hrunning.linked.asleep hrunning.ready
  · intro side u hu
    obtain rfl | rfl := Side.eq_or_eq_peer r.side side
    · obtain rfl | hold := List.mem_cons.mp (hperm.mem_iff.mp hu)
      · exact ⟨r, update_self _ _ _, rfl⟩
      · exact hframed r.side u hold
    · rw [hwait _ (Side.peer_ne r.side)] at hu
      exact hframed r.side.peer u hu
  · intro side hne hnone'
    obtain rfl | rfl := Side.eq_or_eq_peer r.side side
    · change available (transfer s.ringbuffer r).1 r.side.peer = 0 at hnone'
      omega
    · rw [hwait _ (Side.peer_ne r.side)] at hne
      exact hpeer hne
  · constructor
    · intro w hw
      obtain hold | hnew := List.mem_append.mp hw
      · exact hrunning.suspended w hold
      · rw [List.mem_singleton.mp hnew]
        exact hnone
    · intro hquiet side hne
      obtain rfl | rfl := Side.eq_or_eq_peer r.side side
      · exact havailable
      · rw [hwait _ (Side.peer_ne r.side)] at hne
        exact absurd hquiet (hpeer hne).not_quiet

theorem move (hcount : 0 < (transfer s.ringbuffer r).2.2)
    (hsuffices : Suffices s t r) : PipeInv (blockingRound s t r).1 := by
  obtain ⟨hmin, hvalid, havailable⟩ := transfer_spec hrunning.valid r
  have hpos := available_peer_pos hrunning.valid hcount
  have hlinked := hrunning.linked
  rw [blockingRound_move hcount.ne']
  set s' : PipeState := { s with
    core := rtIpcListResume r.side.peer s.core
    ringbuffer := (transfer s.ringbuffer r).1 } with hs'
  have hready : ∀ u, (s.core.threads u).stat = .ready → (s'.core.threads u).stat = .ready :=
    fun u hu => hlinked.rtIpcListResume_ready (.inl hu)
  have hmem : ∀ side u, u ∈ s'.core.wait side → u ∈ s.core.wait side :=
    fun side u hu => hlinked.mem_of_rtIpcListResume hu
  have hne_nil : ∀ side, s'.core.wait side ≠ [] → s.core.wait side ≠ [] :=
    fun side hne hnil => hne (rtIpcListResume_wait_nil hnil)
  have hresumed : s.core.wait r.side.peer ≠ [] → Pending s' r.side.peer := by
    intro hne
    obtain ⟨u, rest, hlist⟩ := List.exists_cons_of_ne_nil hne
    obtain ⟨r', hsome, hside⟩ := hrunning.framed r.side.peer u (by simp [hlist])
    exact ⟨u, r', hsome, hside, hlinked.rtIpcListResume_ready (.inr (by simp [hlist]))⟩
  constructor
  · exact hvalid
  · exact hlinked.rtIpcListResume _
  · exact fun side u hu => hrunning.framed side u (hmem side u hu)
  · intro side hne hnone
    obtain rfl | rfl := Side.eq_or_eq_peer r.side side
    · exact absurd hnone hpos.ne'
    · exact hresumed (hne_nil _ hne)
  · constructor
    · exact hrunning.suspended
    · intro hquiet side hne
      obtain rfl | rfl := Side.eq_or_eq_peer r.side side
      · change available (transfer s.ringbuffer r).1 r.side = 0
        obtain hnone | ⟨-, hle | hnil | hpeer | ⟨u, -, hsome, hu⟩⟩ := hsuffices
        · lia
        · lia
        · exact absurd hnil (hne_nil _ hne)
        · exact absurd hquiet (hresumed hpeer).not_quiet
        · obtain ⟨r', hframe⟩ := isSome_iff_exists.mp hsome
          have hpending : Pending s' r'.side := ⟨u, r', hframe, rfl, hready u hu⟩
          exact absurd hquiet hpending.not_quiet
      · exact absurd hquiet (hresumed (hne_nil _ hne)).not_quiet

theorem suffices_of_move (hcount : 0 < (transfer s.ringbuffer r).2.2)
    (hwaits : WaitsOnlyWhenMust (blockingRound s t r).1) :
    Suffices s t r := by
  obtain ⟨hmin, -, havailable⟩ := transfer_spec hrunning.valid r
  refine .inr ⟨by lia, ?_⟩
  by_contra hfails
  push Not at hfails
  obtain ⟨hlt, hown, hpeer, hother⟩ := hfails
  rw [blockingRound_move hcount.ne'] at hwaits
  have hcore : rtIpcListResume r.side.peer s.core = s.core := by
    simp only [rtIpcListResume, hpeer]
  simp only [hcore] at hwaits
  have hquiet : Quiet { s with ringbuffer := (transfer s.ringbuffer r).1 } := by
    intro u hsome
    apply ThreadStat.eq_suspend
    intro hready
    apply hother
    refine ⟨u, ?_, hsome, hready⟩
    intro hut
    simp [hut, hrunning.frame] at hsome
  have hnone := hwaits.waiting hquiet r.side hown
  lia

theorem waitsOnlyWhenMust_iff :
    (WaitsOnlyWhenMust (blockingRound s t r).1 ↔ Suffices s t r) ∧
      (Suffices s t r → PipeInv (blockingRound s t r).1) := by
  obtain ⟨hmin, -, -⟩ := transfer_spec hrunning.valid r
  by_cases hnone : available s.ringbuffer r.side = 0
  · have hinv := hrunning.wait hnone
    exact ⟨iff_of_true hinv.waits (.inl hnone), fun _ => hinv⟩
  by_cases hcount : (transfer s.ringbuffer r).2.2 = 0
  · have hnot : ¬Suffices s t r := by
      rintro (hnone' | ⟨hne, -⟩)
      · exact hnone hnone'
      · omega
    refine ⟨iff_of_false ?_ hnot, fun hsuffices => absurd hsuffices hnot⟩
    intro hwaits
    rw [blockingRound_wait hcount] at hwaits
    exact hnone (hwaits.suspended (r.side, available s.ringbuffer r.side) (by simp))
  · have hpos := Nat.pos_of_ne_zero hcount
    exact ⟨⟨hrunning.suffices_of_move hpos, fun h => (hrunning.move hpos h).waits⟩,
      hrunning.move hpos⟩

end

end Running

def unframed (s : PipeState) (t : Thread) : PipeState :=
  { s with frame := update s.frame t none }

theorem otherPending_unframed : OtherPending (unframed s t) t ↔ OtherPending s t := by
  apply exists_congr
  intro u
  apply and_congr_right
  intro hut
  simp only [unframed, update_of_ne hut]

theorem suffices_unframed : Suffices (unframed s t) t r ↔ Suffices s t r := by
  unfold Suffices
  rw [otherPending_unframed]
  rfl

theorem unframed_eq (hframe : s.frame t = none) : unframed s t = s := by
  unfold unframed
  rw [← hframe, update_eq_self]

namespace PipeInv

theorem running (hinv : PipeInv s) (hready : (s.core.threads t).stat = .ready)
    (hframe : s.frame t = none ∨ s.frame t = some r) : Running (unframed s t) t r := by
  have hframed : ∀ u, (s.core.threads u).stat = .suspend → (unframed s t).frame u = s.frame u := by
    intro u hu
    apply update_of_ne
    rintro rfl
    rw [hready] at hu
    exact ThreadStat.noConfusion hu
  constructor
  · exact hinv.valid
  · exact hinv.linked
  · intro side u hu
    rw [hframed u (hinv.linked.suspended side u hu)]
    exact hinv.framed side u hu
  · intro hne hnone
    obtain ⟨u, r', hsome, hside, hu⟩ := hinv.awakened r.side.peer hne
      (by rw [Side.peer_peer]; exact hnone)
    have hut : u ≠ t := by
      rintro rfl
      obtain hframe | hframe := hframe
      · simp [hframe] at hsome
      · rw [hframe, some.injEq] at hsome
        rw [hsome] at hside
        exact Side.peer_ne _ hside.symm
    exact ⟨u, r', (update_of_ne hut _ _).trans hsome, hside, hu⟩
  · exact hinv.waits.suspended
  · exact hready
  · exact update_self _ _ _

/-- Threads wait only while they must exactly when each transfer suffices. -/
theorem execute_iff {action : Action} (hinv : PipeInv s) (henabled : action.Enabled s) :
    (WaitsOnlyWhenMust (execute s action) ↔ TransferSuffices s action) ∧
      (TransferSuffices s action → PipeInv (execute s action)) := by
  cases action with
  | read t size =>
    obtain ⟨⟨hready, hframe⟩, -⟩ := henabled
    have hnone := isNone_iff_eq_none.mp hframe
    have hround := (hinv.running (r := .read size) hready (.inl hnone)).waitsOnlyWhenMust_iff
    rw [suffices_unframed, unframed_eq hnone] at hround
    simp only [TransferSuffices, Action.request, mem_def, some.injEq, forall_eq']
    exact hround
  | write t buffer =>
    obtain ⟨⟨hready, hframe⟩, -⟩ := henabled
    have hnone := isNone_iff_eq_none.mp hframe
    have hround := (hinv.running (r := .write buffer) hready (.inl hnone)).waitsOnlyWhenMust_iff
    rw [suffices_unframed, unframed_eq hnone] at hround
    simp only [TransferSuffices, Action.request, mem_def, some.injEq, forall_eq']
    exact hround
  | resumed t =>
    obtain ⟨hready, hframe⟩ := henabled
    obtain ⟨r, hsome⟩ := isSome_iff_exists.mp hframe
    have hround := (hinv.running hready (.inr hsome)).waitsOnlyWhenMust_iff
    rw [suffices_unframed] at hround
    simp only [TransferSuffices, Action.request, hsome, map_some, mem_def,
      some.injEq, forall_eq', execute]
    exact hround

end PipeInv

/-- In every run of requests which suffice the threads wait only when they must; and such a
run stays so by exactly these requests. -/
theorem waitsOnlyWhenMust_of_transferSuffices {a : AlignSize} (area : PipeArea a) (s : PipeState)
    (hreach : (pipeSystem area).Reachable TransferSuffices s) :
    WaitsOnlyWhenMust s ∧ ∀ action, action.Enabled s →
      (WaitsOnlyWhenMust (execute s action) ↔ TransferSuffices s action) := by
  have hinv : PipeInv s := by
    apply hreach.invariant (P := PipeInv)
    · rintro s ⟨hwait, hthreads, hinit, hwaits⟩
      constructor
      · rw [hinit]
        exact (valid_init area.pool area.size_ge area.size_le).1
      · exact .of_empty hwait fun t => (hthreads t).2.1
      · intro side t ht
        simp [hwait] at ht
      · exact fun side hne => absurd (hwait side) hne
      · exact ⟨by simp [hwaits], fun _ side hne => absurd (hwait side) hne⟩
    · rintro s action s' hinv hguard ⟨henabled, rfl⟩
      exact (hinv.execute_iff henabled).2 hguard
  exact ⟨hinv.waits, fun action henabled => (hinv.execute_iff henabled).1⟩

instance (s : PipeState) (t : Thread) : Decidable (MayCall s t) :=
  inferInstanceAs (Decidable (_ ∧ _))

instance (s : PipeState) (action : Action) : Decidable (action.Enabled s) :=
  match action with
  | .read _ _ => inferInstanceAs (Decidable (_ ∧ _))
  | .write t buffer => inferInstanceAs
      (Decidable (MayCall s t ∧ 0 < buffer.length ∧ buffer.length < 4294967296))
  | .resumed t => inferInstanceAs
      (Decidable ((s.core.threads t).stat = .ready ∧ (s.frame t).isSome))

def smallArea : PipeArea wordAlign where
  pool := fun _ => 0
  size := 4
  size_ge := le_rfl
  size_le := by norm_num

def sampleInit : PipeState where
  core := ⟨fun _ => ⟨.ready, .eok, 10, false⟩, fun _ => []⟩
  ringbuffer := rtRingbufferInit wordAlign smallArea.pool smallArea.size
  frame := fun _ => none
  waits := []

theorem init_sampleInit : (pipeSystem smallArea).init sampleInit :=
  ⟨fun _ => rfl, fun _ => ⟨rfl, rfl, rfl⟩, rfl, rfl⟩

def sufficesTest (s : PipeState) (action : Action) : Bool :=
  (action.request s).all fun p =>
    decide (toLength p.2.size ≠ 0 ∧ (available s.ringbuffer p.2.side ≤ toLength p.2.size ∨
        s.core.wait p.2.side = [] ∨ s.core.wait p.2.side.peer ≠ []))

theorem transferSuffices_of_sufficesTest {action : Action} (htest : sufficesTest s action = true) :
    TransferSuffices s action := by
  intro p hp
  unfold sufficesTest at htest
  rw [mem_def.mp hp, all_some] at htest
  obtain ⟨hsize, hgoes⟩ := of_decide_eq_true htest
  exact .inr ⟨hsize, hgoes.imp_right (Or.imp_right .inl)⟩

theorem waitsOnlyWhenMust_in_sample : ∃ s, (pipeSystem smallArea).Reachable TransferSuffices s ∧
      s.waits = [(.read, 0)] ∧ rtRingbufferDataLen s.ringbuffer = 0 ∧
      (WaitsOnlyWhenMust s ∧ ∀ action, action.Enabled s →
        (WaitsOnlyWhenMust (execute s action) ↔ TransferSuffices s action)) := by
  have hrun : (tryRun
      (fun s action => decide (action.Enabled s) && sufficesTest s action) execute
      [.read firstThread 2, .write secondThread [1, 2, 3], .resumed firstThread,
        .read secondThread 8] sampleInit).map
      (fun s => (s.waits, rtRingbufferDataLen s.ringbuffer)) = some ([(.read, 0)], 0) := by
    decide
  have hsound : ∀ s action, (decide (action.Enabled s) && sufficesTest s action) = true →
      TransferSuffices s action ∧ (pipeSystem smallArea).step s action (execute s action) := by
    intro s action htest
    rw [Bool.and_eq_true] at htest
    exact ⟨transferSuffices_of_sufficesTest htest.2, of_decide_eq_true htest.1, rfl⟩
  obtain ⟨s, hreach, hvalue⟩ := exists_tryRun TransferSuffices
    init_sampleInit hrun hsound
  rw [Prod.mk.injEq] at hvalue
  exact ⟨s, hreach, hvalue.1, hvalue.2, waitsOnlyWhenMust_of_transferSuffices smallArea s hreach⟩

/-- Two readers wait; a writer resumes the first one, which leaves a byte for the other.  And
a request for 65536 bytes is suspended although there is a byte. -/
theorem reader_left_waiting :
    (∃ s, (pipeSystem smallArea).Reachable (fun _ _ => True) s ∧ Quiet s ∧
      s.core.wait .read = [secondThread] ∧ rtRingbufferDataLen s.ringbuffer = 1) ∧
    ∃ s, (pipeSystem smallArea).Reachable (fun _ _ => True) s ∧
      s.core.wait .read = [secondThread] ∧ s.waits = [(.read, 1)] ∧
      rtRingbufferDataLen s.ringbuffer = 1 := by
  constructor
  · have hrun : (tryRun (fun s action => decide (Action.Enabled s action)) execute
        [.read firstThread 1, .read secondThread 1, .write thirdThread [1, 2],
          .resumed firstThread] sampleInit).map
        (fun s => (s.core.wait .read, rtRingbufferDataLen s.ringbuffer,
          (s.core.threads secondThread).stat, s.frame)) =
        some ([secondThread], 1, .suspend, update (update
              (update (fun _ => none) firstThread (some (.read 1)))
              secondThread (some (.read 1)))
            firstThread none) := by
      rfl
    obtain ⟨s, hreach, hvalues⟩ := exists_tryRun (fun _ _ => True)
      init_sampleInit hrun fun _ _ htest => ⟨trivial, of_decide_eq_true htest, rfl⟩
    simp only [Prod.mk.injEq] at hvalues
    obtain ⟨hlist, hdata, hstat, hframe⟩ := hvalues
    refine ⟨s, hreach, ?_, hlist, hdata⟩
    intro t hsome
    by_cases hsecond : t = secondThread
    · rw [hsecond]
      exact hstat
    · rw [hframe] at hsome
      by_cases hfirst : t = firstThread
      · simp [hfirst] at hsome
      · simp [update_of_ne hfirst, update_of_ne hsecond] at hsome
  · have hrun : (tryRun (fun s action => decide (Action.Enabled s action))
        execute [.write firstThread [1], .read secondThread 65536] sampleInit).map
        (fun s => (s.core.wait .read, s.waits, rtRingbufferDataLen s.ringbuffer)) =
        some ([secondThread], [(.read, 1)], 1) := by
      decide
    obtain ⟨s, hreach, hvalue⟩ := exists_tryRun (fun _ _ => True)
      init_sampleInit hrun fun _ _ htest => ⟨trivial, of_decide_eq_true htest, rfl⟩
    simp only [Prod.mk.injEq] at hvalue
    exact ⟨s, hreach, hvalue⟩

end RtThread.Pipe
