import RtThread.MessageQueueSlots

/-!
# Runs of a message queue

Every section keeps the invariant of the slots, and a reset always comes to its end.
-/

namespace RtThread.MessageQueue

open Option Ipc

variable {a : AlignSize} {area : MqArea a} {s s' : MqState} {t : Thread} {f : Frame}

theorem linked_recvLoop {flag : IpcFlag} (hlinked : Linked s.core)
    (hready : f.timeout = 0 ∨ (s.core.threads t).stat = .ready) :
    Linked (recvLoop flag s t f).core := by
  unfold recvLoop
  by_cases hempty : s.entry = 0
  · rw [if_pos hempty]
    by_cases htime : f.timeout = 0
    · simp only [htime, if_true]
      exact (hlinked.setError t _).setError t _
    · simp only [htime, if_false]
      exact hlinked.suspend (hready.resolve_left htime) () flag f.timeout
  · rw [if_neg hempty]
    exact hlinked

theorem linked_execute {action : Action} {free queued : List ℕ} (hlinked : Linked s.core)
    (hinv : MqInv area s free queued) (henabled : action.Enabled s)
    (hstep : execute area s action = some s') : Linked s'.core := by
  have htakeFree : ∀ urgent buffer, Linked (takeFree area.msgSize urgent s buffer).core := by
    intro urgent buffer
    unfold takeFree
    split_ifs
    · exact hlinked
    · exact hlinked
    · exact hlinked
  cases action with
  | send buffer => exact some.inj hstep ▸ htakeFree false buffer
  | urgent buffer => exact some.inj hstep ▸ htakeFree true buffer
  | recv t size time =>
    rw [← some.inj hstep]
    unfold rtMqRecv
    split_ifs
    · exact hlinked
    · exact linked_recvLoop hlinked (henabled.imp id And.left)
  | resumed t =>
    cases hframe : s.frame t with
    | none =>
      simp only [execute, hframe] at hstep
      exact some.inj hstep ▸ hlinked
    | some f =>
      simp only [execute, hframe] at hstep
      rw [← some.inj hstep]
      unfold resumed
      by_cases hcode : (s.core.threads t).error ≠ .eok
      · simp only [if_pos hcode]
        exact hlinked
      · simp only [if_neg hcode]
        exact linked_recvLoop hlinked (.inr henabled.1)
  | proceed op =>
    rw [← some.inj hstep]
    cases op with
    | send urgent msg buffer copied =>
      cases copied with
      | false => exact hlinked
      | true =>
        cases urgent with
        | false | true => exact hlinked.rtIpcListResume ()
    | recv msg size buffer takenAt =>
      cases buffer with
      | none | some buffer => exact hlinked
  | reset =>
    obtain ⟨s'', -, hreset, hlinked', -⟩ := hinv.rtMqReset hlinked
    have heq : some s'' = some s' := hreset.symm.trans hstep
    exact some.inj heq ▸ hlinked'
  | timeout t =>
    rw [← some.inj hstep, rtThreadTimeout_eq]
    exact hlinked.woken t _
  | tick => exact some.inj hstep ▸ hlinked

/-- Every section moves its slot from one part of the queue to another. -/
theorem MqInv.execute {action : Action} (hlinked : Linked s.core) (hinv : MqInv area s free queued)
    (henabled : action.Enabled s) (hstep : execute area s action = some s') :
    ∃ free' queued', MqInv area s' free' queued' := by
  cases action with
  | send buffer =>
    obtain ⟨free', htaken⟩ := hinv.takeFree false buffer
    exact ⟨free', queued, some.inj hstep ▸ htaken⟩
  | urgent buffer =>
    obtain ⟨free', htaken⟩ := hinv.takeFree true buffer
    exact ⟨free', queued, some.inj hstep ▸ htaken⟩
  | recv t size time =>
    obtain ⟨queued', hreceived⟩ := hinv.rtMqRecv t size time
    exact ⟨free, queued', some.inj hstep ▸ hreceived⟩
  | resumed t =>
    cases hframe : s.frame t with
    | none =>
      simp only [MessageQueue.execute, hframe] at hstep
      exact ⟨free, queued, some.inj hstep ▸ hinv⟩
    | some f =>
      simp only [MessageQueue.execute, hframe] at hstep
      obtain ⟨queued', hreceived⟩ := hinv.resumed t f
      exact ⟨free, queued', some.inj hstep ▸ hreceived⟩
  | proceed op =>
    rw [← some.inj hstep]
    exact hinv.proceed henabled
  | reset =>
    obtain ⟨s'', free', hreset, -, hinv'⟩ := hinv.rtMqReset hlinked
    have heq : some s'' = some s' := hreset.symm.trans hstep
    exact ⟨free', [], some.inj heq ▸ hinv'⟩
  | timeout t | tick => exact ⟨free, queued, some.inj hstep ▸ hinv.withThreads _ _ _⟩

theorem MqInv.of_reachable {guard : MqState → Action → Prop}
    (hreach : (mqSystem area).Reachable guard s) :
    ∃ free queued, MqInv area s free queued ∧ Linked s.core := by
  apply hreach.invariant (P := fun s => ∃ free queued, MqInv area s free queued ∧ Linked s.core)
  · rintro s ⟨hwait, hthreads, ⟨next, hnext⟩, -, hhead, htail, hentry, hops, hlog, hreturns⟩
    have hfree := linkedTo_init area next area.maxMsgs le_rfl
    have hinit : ((List.range area.maxMsgs).foldl
        (fun list temp => (Function.update list.1 (area.slot temp) list.2, area.slot temp))
        (next, rtNull)) = (s.next, s.msgQueueFree) := hnext
    rw [hinit] at hfree
    refine ⟨_, [], ⟨hfree, hhead, htail, hentry, ?_, ?_, ?_, ?_, ?_, ?_⟩,
      .of_empty (fun _ => hwait) (fun t => (hthreads t).2.1)⟩
    · rw [hops]
      simp only [List.append_nil, List.map_nil, MqArea.slots]
      exact (List.reverse_perm _).map _
    · rw [hlog]
      exact .nil
    · simp [hops]
    · simp [hreturns]
    · simp [takings, hops, hreturns]
    · simp [takings, hops, hreturns]
  · rintro s action s' ⟨free, queued, hinv, hlinked⟩ - ⟨henabled, hstep⟩
    obtain ⟨free', queued', hinv'⟩ := hinv.execute hlinked henabled hstep
    exact ⟨free', queued', hinv', linked_execute hlinked hinv henabled hstep⟩

/-- The slots are divided among the two lists and the calls between their sections, and
every successful receive has taken the first message of the queue as the log gives it. -/
structure Conserved (area : MqArea a) (s : MqState) : Prop where
  lists : ∃ free queued, LinkedTo s.next rtNull s.msgQueueFree free ∧
    LinkedTo s.next rtNull s.msgQueueHead queued ∧
    (free ++ queued ++ s.ops.map Op.msg).Perm area.slots ∧
    (free ++ queued ++ s.ops.map Op.msg).Nodup ∧
    s.entry = queued.length ∧
    s.msgQueueTail = queued.getLastD rtNull ∧
    (contents s.log).length = queued.length
  received : ∀ size buffer takenAt,
    .recv .eok size buffer takenAt ∈ s.returns → Delivered s.log size buffer takenAt
  once : (s.returns.filterMap Return.takenAt).Nodup
  resets : (rtMqReset area.maxMsgs s).isSome

/-- In every run the message queue keeps its slots and the order of its messages. -/
theorem conserved_of_reachable (area : MqArea a) (s : MqState)
    (hreach : (mqSystem area).Reachable (fun _ _ => True) s) :
    Conserved area s := by
  obtain ⟨free, queued, hinv, hlinked⟩ := MqInv.of_reachable hreach
  obtain ⟨s', -, hreset, -⟩ := hinv.rtMqReset hlinked
  constructor
  · exact ⟨free, queued, hinv.free_linked, hinv.queued_linked, hinv.partition, hinv.nodup,
      hinv.entry_eq, hinv.tail_eq, hinv.carried.length_eq.symm⟩
  · intro size buffer takenAt hmem
    exact hinv.returns_good _ hmem
  · exact (List.nodup_append.mp hinv.takings_nodup).2.1
  · rw [hreset]
    rfl

instance (s : MqState) (action : Action) : Decidable (action.Enabled s) :=
  match action with
  | .send _ => isTrue trivial
  | .urgent _ => isTrue trivial
  | .recv _ _ _ => inferInstanceAs (Decidable (_ ∨ _))
  | .resumed _ => inferInstanceAs (Decidable (_ ∧ _))
  | .proceed op => inferInstanceAs (Decidable (op ∈ s.ops))
  | .reset => isTrue trivial
  | .timeout _ => inferInstanceAs (Decidable (_ = _))
  | .tick => isTrue trivial

def sampleArea : MqArea wordAlign := ⟨.fifo, 4096, 4, 16, by norm_num, by norm_num⟩

def sampleInit : MqState where
  core := ⟨fun _ => ⟨.ready, .eok, 10, false⟩, fun _ => []⟩
  tick := 0
  next := (initFree sampleArea fun _ => rtNull).1
  data := fun _ => [0, 0, 0, 0]
  entry := 0
  msgQueueHead := rtNull
  msgQueueTail := rtNull
  msgQueueFree := (initFree sampleArea fun _ => rtNull).2
  frame := fun _ => none
  ops := []
  log := []
  returns := []

theorem init_sampleInit : (mqSystem sampleArea).init sampleInit :=
  ⟨rfl, fun _ => ⟨rfl, rfl, rfl⟩, ⟨_, rfl⟩, fun _ => rfl, rfl, rfl, rfl, rfl, rfl, rfl⟩

theorem conserved_in_sample :
    ∃ s, (mqSystem sampleArea).Reachable (fun _ _ => True) s ∧
      (s.entry, s.log.length, s.returns.length) = (0, 4, 3) ∧ Conserved sampleArea s := by
  have hrun : ([.send [1, 2], .urgent [3], .proceed (.send false 4104 [1, 2] false),
        .proceed (.send false 4104 [1, 2] true), .proceed (.send true 4096 [3] false),
        .proceed (.send true 4096 [3] true), .recv firstThread 8 0,
        .proceed (.recv 4096 8 none 2), .reset,
        .proceed (.recv 4096 8 (some [3, 0, 0, 0]) 2)].foldlM
      (fun s action =>
        if Action.Enabled s action then execute sampleArea s action else none)
      sampleInit).map (fun s => (s.entry, s.log.length, s.returns.length)) =
      some (0, 4, 3) := by
    decide +kernel
  obtain ⟨s, hs, hvalues⟩ := map_eq_some_iff.mp hrun
  have hreach : (mqSystem sampleArea).Reachable (fun _ _ => True) s := by
    apply TransitionSystem.Reachable.foldlM _ (.start init_sampleInit) hs
    intro s action s' hstep
    split_ifs at hstep with henabled
    exact ⟨trivial, henabled, hstep⟩
  exact ⟨s, hreach, hvalues, conserved_of_reachable sampleArea s hreach⟩

end RtThread.MessageQueue
