import RtThread.EventModel

/-!
# Events are neither lost nor delivered early

The log of a run says which bits were sent and delivered, and the set of the
event object is what the log gives.  While `rt_event_send` walks the list, the
threads in front of the cursor are not satisfied; clearing bits keeps it so.
-/

namespace RtThread.Event

open Function List Ipc

/-- The set is the result of the log, in which every delivery is what
`rt_event_recv` would have done at once. -/
inductive Replays : EventSet → List LogEntry → Prop where
  | nil : Replays 0 []
  | sent {set bits : EventSet} {log : List LogEntry} (hlog : Replays set log) :
      Replays (set ||| bits) (log ++ [.sent bits])
  | delivered {d : Delivery} {log : List LogEntry} (hlog : Replays d.before log)
      (hrequest : d.request ≠ 0)
      (hnow : recvNow d.before d.request d.option = some (d.reported, d.after)) :
      Replays d.after (log ++ [.delivered d])

def Answered (log : List LogEntry) (r : Return) : Prop :=
  ∃ d, .delivered d ∈ log.drop r.calledAt ∧ d.thread = r.thread ∧
    d.request = r.request ∧ d.option = r.option ∧ d.reported = r.reported

section Log

variable {set request reported after : EventSet} {option : EventFlag} {log : List LogEntry}
  {d : Delivery} {r : Return}

theorem recvNow_eq_some_iff : recvNow set request option = some (reported, after) ↔
      Satisfied set request option ∧ set &&& request = reported ∧
        (if option &&& flagClear ≠ 0 then set &&& ~~~request else set) = after := by
  unfold recvNow
  by_cases hsat : Satisfied set request option
  · simp [hsat]
  · simp [hsat]

theorem reported_ne_zero (hrequest : request ≠ 0)
    (hnow : recvNow set request option = some (reported, after)) : reported ≠ 0 := by
  rcases recvNow_eq_some_iff.mp hnow with ⟨hsat, rfl, -⟩
  unfold Satisfied at hsat
  split_ifs at hsat
  · rw [hsat]
    exact hrequest
  · exact hsat

theorem satisfied_of_after {request' : EventSet} {option' : EventFlag}
    (hnow : recvNow set request option = some (reported, after))
    (hsat : Satisfied after request' option') : Satisfied set request' option' := by
  rcases recvNow_eq_some_iff.mp hnow with ⟨-, -, rfl⟩
  split_ifs at hsat
  · exact hsat.of_and
  · exact hsat

theorem Replays.recvNow_of_mem (hreplays : Replays set log) (hmem : .delivered d ∈ log) :
    d.request ≠ 0 ∧ recvNow d.before d.request d.option = some (d.reported, d.after) := by
  induction hreplays with
  | nil => cases hmem
  | sent _ ih => exact ih (by simpa using hmem)
  | delivered _ hrequest hnow ih =>
    rcases mem_append.mp hmem with hold | hnew
    · exact ih hold
    · have heq : d = _ := LogEntry.delivered.inj (mem_singleton.mp hnew)
      rw [heq]
      exact ⟨hrequest, hnow⟩

theorem getLsbD_after {i : ℕ} (hnow : recvNow set request option = some (reported, after))
    (hset : set.getLsbD i = true) (hafter : after.getLsbD i = false) :
    option &&& flagClear ≠ 0 ∧ reported.getLsbD i = true := by
  rcases recvNow_eq_some_iff.mp hnow with ⟨-, rfl, rfl⟩
  split_ifs at hafter with hclear
  · refine ⟨hclear, ?_⟩
    have hi : i < 32 := by
      by_contra hge
      rw [BitVec.getLsbD_of_ge _ _ (not_lt.mp hge)] at hset
      cases hset
    simp only [BitVec.getLsbD_and, BitVec.getLsbD_not, hset, hi] at hafter ⊢
    simpa using hafter
  · rw [hset] at hafter
    cases hafter

theorem Replays.exists_delivered {before rest : List LogEntry} {bits : EventSet} {i : ℕ}
    (hreplays : Replays set log) (hlog : log = before ++ .sent bits :: rest)
    (hbit : bits.getLsbD i = true) (hgone : set.getLsbD i = false) :
    ∃ d, .delivered d ∈ rest ∧ d.option &&& flagClear ≠ 0 ∧ d.reported.getLsbD i = true := by
  -- the last entry is the sending itself or comes after it
  induction hreplays generalizing rest with
  | nil => simp at hlog
  | @sent set bits' log _ ih =>
    rcases eq_nil_or_concat rest with rfl | ⟨rest', last, rfl⟩
    · have hsame := append_inj_right' hlog rfl
      simp only [cons.injEq, LogEntry.sent.injEq, and_true] at hsame
      rw [hsame, BitVec.getLsbD_or, hbit, Bool.or_true] at hgone
      cases hgone
    · rw [concat_eq_append, ← cons_append, ← append_assoc] at hlog
      rw [BitVec.getLsbD_or, Bool.or_eq_false_iff] at hgone
      rcases ih (append_inj_left' hlog rfl) hgone.1 with ⟨d, hd, hspec⟩
      exact ⟨d, by simp [hd], hspec⟩
  | @delivered d log _ hrequest hnow ih =>
    rcases eq_nil_or_concat rest with rfl | ⟨rest', last, rfl⟩
    · have hsame := append_inj_right' hlog rfl
      cases hsame
    · rw [concat_eq_append, ← cons_append, ← append_assoc] at hlog
      have hlast := append_inj_right' hlog rfl
      by_cases hbefore : d.before.getLsbD i = true
      · refine ⟨d, ?_, getLsbD_after hnow hbefore hgone⟩
        rw [concat_eq_append, ← hlast]
        simp
      · rcases ih (append_inj_left' hlog rfl) (by simpa using hbefore) with ⟨d', hd', hspec⟩
        exact ⟨d', by simp [hd'], hspec⟩

theorem Answered.append (hanswered : Answered log r) (entries : List LogEntry) :
    Answered (log ++ entries) r := by
  rcases hanswered with ⟨d, hmem, hspec⟩
  refine ⟨d, ?_, hspec⟩
  rw [drop_append]
  exact mem_append_left _ hmem

theorem answered_last {calledAt : ℕ} (hcalled : calledAt ≤ log.length) :
    Answered (log ++ [.delivered d]) ⟨d.thread, d.request, d.option, d.reported, calledAt⟩ := by
  refine ⟨d, ?_, rfl, rfl, rfl, rfl⟩
  rw [drop_append_of_le_length hcalled]
  simp

end Log

variable {flag : IpcFlag} {s : EventState} {t u : Thread} {unchecked : List Thread}

def EventState.call (s : EventState) (t : Thread) : Return :=
  ⟨t, s.request t, s.eventInfo t, s.eventSet t, s.calledAt t⟩

/-- The set replays the log, and every answer was due at its time. -/
structure EventInv (s : EventState) (unchecked : List Thread) : Prop where
  linked : Linked s.core
  replays : Replays s.set s.log
  waiting : ∀ t ∈ s.core.wait (), s.inRecv t = true ∧ (s.core.threads t).error = .eok ∧
    s.eventSet t = s.request t ∧ s.request t ≠ 0 ∧ s.calledAt t ≤ s.log.length
  unsatisfied : ∀ t ∈ s.core.wait (), t ∉ unchecked → ¬Satisfied s.set (s.request t) (s.eventInfo t)
  granted : ∀ t, s.inRecv t = true → (s.core.threads t).stat = .ready →
    (s.core.threads t).error = .eok → Answered s.log (s.call t)
  returned : ∀ r ∈ s.returns, Answered s.log r

namespace EventInv

section

variable (hinv : EventInv s (t :: unchecked))
include hinv

theorem passOver
    (hnot : ¬Satisfied s.set (s.request t) (s.eventInfo t)) :
    EventInv s unchecked := by
  refine ⟨hinv.linked, hinv.replays, hinv.waiting, ?_, hinv.granted, hinv.returned⟩
  intro u hu hunchecked
  by_cases hut : u = t
  · rw [hut]
    exact hnot
  · exact hinv.unsatisfied u hu (by simp [hut, hunchecked])

theorem deliver {reported after : EventSet}
    (hmem : t ∈ s.core.wait ())
    (hnow : recvNow s.set (s.eventSet t) (s.eventInfo t) = some (reported, after)) : EventInv
      { s with
        core := woken s.core t .eok
        set := after
        eventSet := update s.eventSet t reported
        log := s.log ++ [.delivered ⟨t, s.eventSet t, s.eventInfo t, s.set, reported, after⟩] }
      unchecked := by
  rcases hinv.waiting t hmem with ⟨-, -, hsame, hrequest, hcalled⟩
  have hleft : ∀ u ∈ (woken s.core t .eok).wait (), u ≠ t ∧ u ∈ s.core.wait () :=
    fun u hu => ((hinv.linked.nodup ()).mem_erase_iff).mp hu
  refine ⟨hinv.linked.woken t .eok, ?_, ?_, ?_, ?_, ?_⟩
  · exact Replays.delivered (d := ⟨t, s.eventSet t, s.eventInfo t, s.set, reported, after⟩)
      hinv.replays (by rw [hsame]; exact hrequest) hnow
  · intro u hu
    rcases hleft u hu with ⟨hut, hu⟩
    rcases hinv.waiting u hu with ⟨hin, herror, hsame', hrequest', hcalled'⟩
    simp only [woken_of_ne hut, update_of_ne hut, length_append]
    exact ⟨hin, herror, hsame', hrequest', by omega⟩
  · intro u hu hunchecked hsat
    rcases hleft u hu with ⟨hut, hu⟩
    exact hinv.unsatisfied u hu (by simp [hut, hunchecked]) (satisfied_of_after hnow hsat)
  · intro u hin hready herror
    by_cases hut : u = t
    · subst hut
      have hlast := answered_last
        (d := ⟨u, s.eventSet u, s.eventInfo u, s.set, reported, after⟩) hcalled
      rw [hsame] at hlast ⊢
      simpa [EventState.call] using hlast
    · simp only [woken_of_ne hut] at hready herror
      have hold := (hinv.granted u hin hready herror).append
        [.delivered ⟨t, s.eventSet t, s.eventInfo t, s.set, reported, after⟩]
      simpa [EventState.call, update_of_ne hut] using hold
  · exact fun r hr => (hinv.returned r hr).append _

theorem sendTo (hmem : t ∈ s.core.wait ()) :
    EventInv (sendTo s t) unchecked ∧
      ∀ u ∈ s.core.wait (), u ≠ t → u ∈ (Event.sendTo s t).core.wait () := by
  rcases hinv.waiting t hmem with ⟨-, herror, hsame, -, -⟩
  have hagree := sendCheck_eq_recvNow s.set (s.eventSet t) (s.eventInfo t)
  unfold Event.sendTo
  cases hcheck : sendCheck s.set (s.eventSet t) (s.eventInfo t) with
  | none =>
    refine ⟨hinv.passOver ?_, fun u hu _ => hu⟩
    rw [hcheck, Option.map_none, hsame] at hagree
    intro hsat
    unfold recvNow at hagree
    rw [if_pos hsat] at hagree
    cases hagree
  | some reported =>
    rw [hcheck, Option.map_some] at hagree
    simp only [hinv.linked.rtThreadResume_eq hmem, herror]
    refine ⟨hinv.deliver hmem hagree.symm, ?_⟩
    intro u hu hut
    exact ((hinv.linked.nodup ()).mem_erase_iff).mpr ⟨hut, hu⟩

end

theorem foldl_sendTo (hinv : EventInv s unchecked) (hnodup : unchecked.Nodup)
    (hsub : ∀ u ∈ unchecked, u ∈ s.core.wait ()) :
    EventInv (unchecked.foldl Event.sendTo s) [] := by
  induction unchecked generalizing s with
  | nil => exact hinv
  | cons t rest ih =>
    rw [nodup_cons] at hnodup
    rcases hinv.sendTo (hsub t (by simp)) with ⟨hinv', hleft⟩
    apply ih hinv' hnodup.2
    intro u hu
    apply hleft u (hsub u (by simp [hu]))
    rintro rfl
    exact hnodup.1 hu

section

variable (hinv : EventInv s [])
include hinv

theorem rtEventSend (bits : EventSet) : EventInv (rtEventSend s bits) [] := by
  unfold Event.rtEventSend
  split_ifs
  · exact hinv
  · have hsent : EventInv { s with set := s.set ||| bits, log := s.log ++ [.sent bits] }
        (s.core.wait ()) := by
      refine ⟨hinv.linked, hinv.replays.sent, ?_, fun t ht hnot => absurd ht hnot, ?_, ?_⟩
      · intro t ht
        rcases hinv.waiting t ht with ⟨hin, herror, hsame, hrequest, hcalled⟩
        refine ⟨hin, herror, hsame, hrequest, ?_⟩
        simp only [length_append]
        omega
      · exact fun t hin hready herror => (hinv.granted t hin hready herror).append _
      · exact fun r hr => (hinv.returned r hr).append _
    exact hsent.foldl_sendTo (hinv.linked.nodup ()) (fun _ hu => hu)

theorem setError (hready : (s.core.threads t).stat = .ready)
    (houtside : s.inRecv t = false) (code : ErrorCode) :
    EventInv { s with core := setError s.core t code } [] := by
  have hother : ∀ u, u ≠ t → (Ipc.setError s.core t code).threads u = s.core.threads u := by
    intro u hut
    simp [Ipc.setError, Core.setThread, hut]
  refine ⟨hinv.linked.setError t code, hinv.replays, ?_, hinv.unsatisfied, ?_, hinv.returned⟩
  · intro u hu
    have hut : u ≠ t := by
      rintro rfl
      exact hinv.linked.not_mem_of_ready hready hu
    simp only [hother u hut]
    exact hinv.waiting u hu
  · intro u hin hready' herror
    have hut : u ≠ t := by
      rintro rfl
      rw [houtside] at hin
      cases hin
    simp only [hother u hut] at hready' herror
    exact hinv.granted u hin hready' herror

theorem receive {request reported after : EventSet} {option : EventFlag}
    (hrequest : request ≠ 0) (hnow : recvNow s.set request option = some (reported, after)) :
    EventInv
      { s with
        set := after
        log := s.log ++ [.delivered ⟨t, request, option, s.set, reported, after⟩]
        returns := ⟨t, request, option, reported, s.log.length⟩ :: s.returns } [] := by
  refine ⟨hinv.linked, ?_, ?_, ?_, ?_, ?_⟩
  · exact Replays.delivered (d := ⟨t, request, option, s.set, reported, after⟩)
      hinv.replays hrequest hnow
  · intro u hu
    rcases hinv.waiting u hu with ⟨hin, herror, hsame, hrequest', hcalled⟩
    refine ⟨hin, herror, hsame, hrequest', ?_⟩
    simp only [length_append]
    omega
  · exact fun u hu hnil hsat => hinv.unsatisfied u hu hnil (satisfied_of_after hnow hsat)
  · exact fun u hin hready herror => (hinv.granted u hin hready herror).append _
  · intro r hr
    rcases mem_cons.mp hr with rfl | hr
    · exact answered_last (d := ⟨t, request, option, s.set, reported, after⟩) le_rfl
    · exact (hinv.returned r hr).append _

section

variable (hready : (s.core.threads t).stat = .ready)
include hready

theorem asleep {request : EventSet} {option : EventFlag} {timeout : ℤ}
    (herror : (s.core.threads t).error = .eok)
    (hrequest : request ≠ 0) (hnot : ¬Satisfied s.set request option) : EventInv
      { s with
        core := Ipc.asleep s.core () flag t timeout
        eventSet := update s.eventSet t request
        eventInfo := update s.eventInfo t option
        inRecv := update s.inRecv t true
        request := update s.request t request
        calledAt := update s.calledAt t s.log.length } [] := by
  rcases asleep_wait s.core () flag t timeout with ⟨hperm, -⟩
  rcases asleep_threads () flag timeout hready with ⟨hstat, herror', -, hother⟩
  have hmem : ∀ u ∈ (Ipc.asleep s.core () flag t timeout).wait (), u = t ∨ u ∈ s.core.wait () := by
    intro u hu
    rw [hperm.mem_iff, mem_cons] at hu
    exact hu
  refine ⟨hinv.linked.asleep hready, hinv.replays, ?_, ?_, ?_, hinv.returned⟩
  · intro u hu
    by_cases hut : u = t
    · subst hut
      simp only [update_self, herror', herror]
      exact ⟨trivial, trivial, trivial, hrequest, le_rfl⟩
    · simp only [hother u hut, update_of_ne hut]
      exact hinv.waiting u ((hmem u hu).resolve_left hut)
  · intro u hu hnil
    by_cases hut : u = t
    · subst hut
      simp only [update_self]
      exact hnot
    · simp only [update_of_ne hut]
      exact hinv.unsatisfied u ((hmem u hu).resolve_left hut) hnil
  · intro u hin hready' herr
    by_cases hut : u = t
    · subst hut
      rw [hstat] at hready'
      cases hready'
    · simp only [hother u hut, update_of_ne hut] at hin hready' herr
      simpa only [EventState.call, update_of_ne hut] using hinv.granted u hin hready' herr

theorem rtEventRecv
    (houtside : s.inRecv t = false) (request : EventSet) (option : EventFlag) (timeout : ℤ) :
    EventInv (rtEventRecv flag s t request option timeout) [] := by
  unfold Event.rtEventRecv
  by_cases hrequest : request = 0
  · rw [if_pos hrequest]
    exact hinv
  rw [if_neg hrequest]
  have hreset := hinv.setError hready houtside .eok
  cases hnow : recvNow s.set request option with
  | some pair => exact hreset.receive hrequest hnow
  | none =>
    have hnot : ¬Satisfied s.set request option := by
      intro hsat
      unfold recvNow at hnow
      rw [if_pos hsat] at hnow
      cases hnow
    split_ifs with htimeout
    · exact hreset.setError (by simp [hready]) houtside .etimeout
    · exact hreset.asleep (by simp [hready]) (by simp [Ipc.setError, Core.setThread]) hrequest hnot

theorem returnFromRecv
    (hinside : s.inRecv t = true) : EventInv (returnFromRecv s t) [] := by
  refine ⟨hinv.linked, hinv.replays, ?_, hinv.unsatisfied, ?_, ?_⟩
  · intro u hu
    have hut : u ≠ t := by
      rintro rfl
      exact hinv.linked.not_mem_of_ready hready hu
    simp only [Event.returnFromRecv, update_of_ne hut]
    exact hinv.waiting u hu
  · intro u hin
    by_cases hut : u = t
    · subst hut
      exact absurd hin (by simp [Event.returnFromRecv])
    · simp only [Event.returnFromRecv, update_of_ne hut] at hin
      exact hinv.granted u hin
  · intro r hr
    simp only [Event.returnFromRecv] at hr ⊢
    split_ifs at hr with herror
    · rcases mem_cons.mp hr with rfl | hr
      · exact hinv.granted t hinside hready herror
      · exact hinv.returned r hr
    · exact hinv.returned r hr

end

theorem timeout : EventInv { s with core := woken s.core t .etimeout } [] := by
  have hleft : ∀ u ∈ (woken s.core t .etimeout).wait (), u ≠ t ∧ u ∈ s.core.wait () :=
    fun u hu => ((hinv.linked.nodup ()).mem_erase_iff).mp hu
  refine ⟨hinv.linked.woken t .etimeout, hinv.replays, ?_, ?_, ?_, hinv.returned⟩
  · intro u hu
    rcases hleft u hu with ⟨hut, hu⟩
    simp only [woken_of_ne hut]
    exact hinv.waiting u hu
  · exact fun u hu => hinv.unsatisfied u (hleft u hu).2
  · intro u hin hready herror
    by_cases hut : u = t
    · subst hut
      simp only [woken_self] at herror
      cases herror
    · simp only [woken_of_ne hut] at hready herror
      exact hinv.granted u hin hready herror

theorem execute {action : Action} (henabled : action.Enabled s) :
    EventInv (execute flag s action) [] := by
  cases action with
  | send bits => exact hinv.rtEventSend bits
  | recv t request option timeout =>
    exact hinv.rtEventRecv henabled.1 henabled.2 request option timeout
  | finish t => exact hinv.returnFromRecv henabled.1 henabled.2
  | timeout t =>
    simp only [Event.execute, rtThreadTimeout_eq]
    exact hinv.timeout

end

theorem of_reachable {guard : EventState → Action → Prop}
    (hreach : (eventSystem flag).Reachable guard s) : EventInv s [] := by
  apply hreach.invariant (P := fun s => EventInv s [])
  · rintro s ⟨hwait, hthreads, hset, hlog, hreturns⟩
    refine ⟨.of_empty (fun _ => hwait) (fun t => (hthreads t).2.1), ?_, ?_, ?_, ?_, ?_⟩
    · rw [hset, hlog]
      exact Replays.nil
    · rw [hwait]
      simp
    · rw [hwait]
      simp
    · intro t hin
      rw [(hthreads t).2.2] at hin
      cases hin
    · rw [hreturns]
      simp
  · rintro s action s' hinv - ⟨henabled, rfl⟩
    exact hinv.execute henabled

end EventInv

/-- No waiting thread could have its bits, every successful receive reports what
an immediate one would have reported and cleared at some instant of the call, and
sent bits go only to receivers which clear them. -/
structure EventsDelivered (s : EventState) : Prop where
  unsatisfied : ∀ t ∈ s.core.wait (), ¬Satisfied s.set (s.eventSet t) (s.eventInfo t)
  replays : Replays s.set s.log
  returned : ∀ r ∈ s.returns, r.reported ≠ 0 ∧
    ∃ d, .delivered d ∈ s.log.drop r.calledAt ∧ d.thread = r.thread ∧
      Satisfied d.before r.request r.option ∧
      recvNow d.before r.request r.option = some (r.reported, d.after)
  not_lost : ∀ before bits rest i, s.log = before ++ .sent bits :: rest →
    bits.getLsbD i = true → s.set.getLsbD i = false →
      ∃ d, .delivered d ∈ rest ∧ d.option &&& flagClear ≠ 0 ∧ d.reported.getLsbD i = true

/-- In every run events are neither lost nor delivered early. -/
theorem eventsDelivered_of_reachable (flag : IpcFlag)
    (hreach : (eventSystem flag).Reachable (fun _ _ => True) s) :
    EventsDelivered s := by
  have hinv := EventInv.of_reachable hreach
  constructor
  · intro t ht
    rw [(hinv.waiting t ht).2.2.1]
    exact hinv.unsatisfied t ht not_mem_nil
  · exact hinv.replays
  · intro r hr
    rcases hinv.returned r hr with ⟨d, hmem, hthread, hrequest, hoption, hreported⟩
    rcases hinv.replays.recvNow_of_mem (mem_of_mem_drop hmem) with ⟨hne, hnow⟩
    rw [hrequest] at hne
    rw [hrequest, hoption, hreported] at hnow
    exact ⟨reported_ne_zero hne hnow, d, hmem, hthread, (recvNow_eq_some_iff.mp hnow).1, hnow⟩
  · exact fun _ _ _ _ hlog hbit hgone => hinv.replays.exists_delivered hlog hbit hgone

instance (s : EventState) (action : Action) : Decidable (action.Enabled s) :=
  match action with
  | .send _ => isTrue trivial
  | .recv _ _ _ _ => inferInstanceAs (Decidable (_ ∧ _))
  | .finish _ => inferInstanceAs (Decidable (_ ∧ _))
  | .timeout _ => inferInstanceAs (Decidable (_ = _))

def sampleInit : EventState where
  core := ⟨fun _ => ⟨.ready, .eok, 10, false⟩, fun _ => []⟩
  set := 0
  eventSet := fun _ => 0
  eventInfo := fun _ => 0
  inRecv := fun _ => false
  request := fun _ => 0
  calledAt := fun _ => 0
  log := []
  returns := []

def sampleRun (flag : IpcFlag) (actions : List Action) : Option EventState :=
  actions.foldlM (fun s action => if action.Enabled s then some (execute flag s action) else none)
    sampleInit

theorem reachable_sampleRun {actions : List Action} (hrun : sampleRun flag actions = some s) :
    (eventSystem flag).Reachable (fun _ _ => True) s := by
  have hstart : (eventSystem flag).init sampleInit := ⟨rfl, fun _ => ⟨rfl, rfl, rfl⟩, rfl, rfl, rfl⟩
  apply TransitionSystem.Reachable.foldlM _ (.start hstart) hrun
  intro s action s' hstep
  split_ifs at hstep with henabled
  exact ⟨trivial, henabled, (Option.some.inj hstep).symm⟩

theorem eventsDelivered_in_sample :
    ∃ s, (eventSystem .fifo).Reachable (fun _ _ => True) s ∧
      s.returns.map Return.reported = [2, 3] ∧ s.set = 4 ∧ EventsDelivered s := by
  have hrun : (sampleRun .fifo
      [.recv ⟨1, by decide⟩ 3 5 (-1), .send 1, .send 6, .finish ⟨1, by decide⟩, .send 2,
        .recv ⟨2, by decide⟩ 2 6 0]).map
        (fun s => (s.returns.map Return.reported, s.set)) = some ([2, 3], 4) := by
    decide
  rcases Option.map_eq_some_iff.mp hrun with ⟨s, hs, hvalues⟩
  have hreach := reachable_sampleRun hs
  exact ⟨s, hreach, (Prod.mk.inj hvalues).1, (Prod.mk.inj hvalues).2,
    eventsDelivered_of_reachable .fifo hreach⟩

end RtThread.Event
