import RtThread.KernelDefs

/-!
# Reclaiming dead threads

A thread ends through `rt_thread_exit`, `rt_thread_delete` or `rt_thread_detach`, and most
of them leave it in the defunct list, from which the idle thread takes it.  The kernel lists
are lists of threads; a cleanup callback only leaves its trace in a log, and the bitmap of
the ready priorities and application modules are left out.
-/

namespace RtThread.ThreadReclaim

open List

variable {κ : Type}

structure ThreadBlock where
  isSystemobject : Bool
  cleanup : Bool
  closed : Bool

structure KernelState (κ : Type) where
  threads : Thread → ThreadBlock
  queue : ℕ → List Thread
  wait : κ → List Thread
  timerRow : ℕ → List Thread
  timerObjects : List Thread
  objects : List Thread
  rtThreadDefunct : List Thread
  cleanedUp : List Thread
  freed : List Thread

namespace KernelState

/-- `rt_schedule_remove_thread`: the node `tlist` leaves the list where it stands. -/
def rtScheduleRemoveThread (s : KernelState κ) (t : Thread) : KernelState κ :=
  { s with
    queue := fun p => (s.queue p).erase t
    wait := fun k => (s.wait k).erase t
    rtThreadDefunct := s.rtThreadDefunct.erase t }

def rtTimerDetach (s : KernelState κ) (t : Thread) : KernelState κ :=
  { s with
    timerRow := fun i => (s.timerRow i).erase t
    timerObjects := s.timerObjects.erase t }

def rtObjectDetach (s : KernelState κ) (t : Thread) : KernelState κ :=
  { s with objects := s.objects.erase t }

def rtObjectDelete (s : KernelState κ) (t : Thread) : KernelState κ :=
  { s with objects := s.objects.erase t, freed := s.freed ++ [t] }

def close (s : KernelState κ) (t : Thread) : KernelState κ :=
  { s with threads := Function.update s.threads t { s.threads t with closed := true } }

/-- `rt_list_insert_after(&rt_thread_defunct, &(thread->tlist))`. -/
def insertDefunct (s : KernelState κ) (t : Thread) : KernelState κ :=
  { s with rtThreadDefunct := t :: s.rtThreadDefunct }

end KernelState

def rtThreadExit (s : KernelState κ) (t : Thread) : KernelState κ :=
  let s := ((s.rtScheduleRemoveThread t).close t).rtTimerDetach t
  if (s.threads t).isSystemobject ∧ ¬(s.threads t).cleanup then s.rtObjectDetach t
  else s.insertDefunct t

def rtThreadDetach (s : KernelState κ) (t : Thread) : KernelState κ :=
  let s := (((s.rtScheduleRemoveThread t).rtTimerDetach t).close t).rtObjectDetach t
  if (s.threads t).cleanup then s.insertDefunct t else s

def rtThreadDelete (s : KernelState κ) (t : Thread) : KernelState κ :=
  (((s.rtScheduleRemoveThread t).rtTimerDetach t).close t).insertDefunct t

def idleLoop : List Thread → KernelState κ → KernelState κ
  | [], s => s
  | t :: rest, s =>
    let s := { s with rtThreadDefunct := rest }
    let s := if (s.threads t).cleanup then { s with cleanedUp := s.cleanedUp ++ [t] } else s
    if (s.threads t).isSystemobject then s else idleLoop rest (s.rtObjectDelete t)

def rtThreadIdleExcute (s : KernelState κ) : KernelState κ := idleLoop s.rtThreadDefunct s

inductive Route where
  | exit
  | delete
  | detach
  deriving DecidableEq

structure Termination where
  route : Route
  thread : Thread
  deriving DecidableEq

def terminate (s : KernelState κ) (e : Termination) : KernelState κ :=
  match e.route with
  | .exit => rtThreadExit s e.thread
  | .delete => rtThreadDelete s e.thread
  | .detach => rtThreadDetach s e.thread

def terminateAll (s : KernelState κ) (es : List Termination) : KernelState κ :=
  es.foldl terminate s

def deferred (s : KernelState κ) (e : Termination) : Bool :=
  match e.route with
  | .exit => !((s.threads e.thread).isSystemobject && !(s.threads e.thread).cleanup)
  | .delete => true
  | .detach => (s.threads e.thread).cleanup

def unregisters (s : KernelState κ) (e : Termination) : Bool :=
  match e.route with
  | .exit => (s.threads e.thread).isSystemobject && !(s.threads e.thread).cleanup
  | .delete => false
  | .detach => true

/-- No thread has terminated yet, and no list has one twice. -/
structure Ready (s : KernelState κ) (es : List Termination) : Prop where
  queue_nodup : ∀ p, (s.queue p).Nodup
  wait_nodup : ∀ k, (s.wait k).Nodup
  row_nodup : ∀ i, (s.timerRow i).Nodup
  timerObjects_nodup : s.timerObjects.Nodup
  objects_nodup : s.objects.Nodup
  defunct : s.rtThreadDefunct = []
  cleanedUp : s.cleanedUp = []
  registered : ∀ e ∈ es, e.thread ∈ s.objects
  once : (es.map Termination.thread).Nodup

/-- Nothing of the kernel refers to `t` any more. -/
structure Reclaimed (s : KernelState κ) (t : Thread) : Prop where
  queue : ∀ p, t ∉ s.queue p
  wait : ∀ k, t ∉ s.wait k
  timerRow : ∀ i, t ∉ s.timerRow i
  timerObject : t ∉ s.timerObjects
  object : t ∉ s.objects
  defunct : t ∉ s.rtThreadDefunct
  cleanedUp : s.cleanedUp.count t = if (s.threads t).cleanup then 1 else 0

/-- A static thread comes to the defunct list through `rt_thread_detach` only, and before
all others. -/
def StaticDetachedFirst (s : KernelState κ) (es : List Termination) : Prop :=
  ∀ e ∈ es.filter (deferred s), (s.threads e.thread).isSystemobject →
    e.route = .detach ∧ (es.filter (deferred s)).head? = some e

variable {s s' : KernelState κ} {e : Termination} {es : List Termination} {t : Thread}

structure SameKinds (s s' : KernelState κ) : Prop where
  isSystemobject : ∀ t, (s'.threads t).isSystemobject = (s.threads t).isSystemobject
  cleanup : ∀ t, (s'.threads t).cleanup = (s.threads t).cleanup

theorem SameKinds.refl : SameKinds s s := ⟨fun _ => rfl, fun _ => rfl⟩

theorem SameKinds.deferred_eq (hsame : SameKinds s s') : deferred s' = deferred s := by
  funext e
  unfold deferred
  rw [hsame.isSystemobject, hsame.cleanup]

theorem SameKinds.unregisters_eq (hsame : SameKinds s s') : unregisters s' = unregisters s := by
  funext e
  unfold unregisters
  rw [hsame.isSystemobject, hsame.cleanup]

theorem sameKinds_close (s : KernelState κ) (t : Thread) : SameKinds s (s.close t) := by
  constructor
  · intro u
    by_cases hu : u = t
    · simp [KernelState.close, hu]
    · simp [KernelState.close, hu]
  · intro u
    by_cases hu : u = t
    · simp [KernelState.close, hu]
    · simp [KernelState.close, hu]

structure Terminates (s : KernelState κ) (e : Termination) (s' : KernelState κ) : Prop where
  kinds : SameKinds s s'
  queue : ∀ p, s'.queue p = (s.queue p).erase e.thread
  wait : ∀ k, s'.wait k = (s.wait k).erase e.thread
  timerRow : ∀ i, s'.timerRow i = (s.timerRow i).erase e.thread
  timerObjects : s'.timerObjects = s.timerObjects.erase e.thread
  objects : s'.objects = if unregisters s e then s.objects.erase e.thread else s.objects
  defunct : s'.rtThreadDefunct = if deferred s e then e.thread :: s.rtThreadDefunct.erase e.thread
    else s.rtThreadDefunct.erase e.thread
  cleanedUp : s'.cleanedUp = s.cleanedUp

theorem terminates_exit : Terminates s ⟨.exit, t⟩ (rtThreadExit s t) := by
  have hclose := sameKinds_close s t
  unfold rtThreadExit
  have hcase : ((((s.rtScheduleRemoveThread t).close t).rtTimerDetach t).threads t).isSystemobject
        = true ∧
      ¬((((s.rtScheduleRemoveThread t).close t).rtTimerDetach t).threads t).cleanup = true ↔
      unregisters s ⟨.exit, t⟩ = true := by
    simp [unregisters, KernelState.rtScheduleRemoveThread, KernelState.rtTimerDetach,
      KernelState.close]
  have hdeferred : deferred s ⟨.exit, t⟩ = !unregisters s ⟨.exit, t⟩ := rfl
  by_cases hstatic : unregisters s ⟨.exit, t⟩ = true
  · rw [if_pos (hcase.mpr hstatic)]
    refine ⟨⟨hclose.isSystemobject, hclose.cleanup⟩, fun _ => rfl, fun _ => rfl, fun _ => rfl,
      rfl, ?_, ?_, rfl⟩
    · rw [if_pos hstatic]
      rfl
    · rw [hdeferred, hstatic]
      rfl
  · rw [if_neg (mt hcase.mp hstatic)]
    refine ⟨⟨hclose.isSystemobject, hclose.cleanup⟩, fun _ => rfl, fun _ => rfl, fun _ => rfl,
      rfl, ?_, ?_, rfl⟩
    · rw [if_neg hstatic]
      rfl
    · rw [hdeferred, Bool.eq_false_of_not_eq_true hstatic]
      rfl

theorem terminates_delete : Terminates s ⟨.delete, t⟩ (rtThreadDelete s t) := by
  have hclose := sameKinds_close s t
  exact ⟨⟨hclose.isSystemobject, hclose.cleanup⟩, fun _ => rfl, fun _ => rfl, fun _ => rfl,
    rfl, rfl, rfl, rfl⟩

theorem terminates_detach : Terminates s ⟨.detach, t⟩ (rtThreadDetach s t) := by
  have hclose := sameKinds_close s t
  have hcleanup : (((((s.rtScheduleRemoveThread t).rtTimerDetach t).close t).rtObjectDetach
      t).threads t).cleanup = (s.threads t).cleanup := hclose.cleanup t
  unfold rtThreadDetach
  simp only [hcleanup]
  by_cases hcallback : (s.threads t).cleanup = true
  · rw [if_pos hcallback]
    refine ⟨⟨hclose.isSystemobject, hclose.cleanup⟩, fun _ => rfl, fun _ => rfl, fun _ => rfl,
      rfl, rfl, ?_, rfl⟩
    rw [deferred, hcallback]
    rfl
  · rw [if_neg hcallback]
    refine ⟨⟨hclose.isSystemobject, hclose.cleanup⟩, fun _ => rfl, fun _ => rfl, fun _ => rfl,
      rfl, rfl, ?_, rfl⟩
    rw [deferred, Bool.eq_false_of_not_eq_true hcallback]
    rfl

theorem terminates (s : KernelState κ) (e : Termination) : Terminates s e (terminate s e) := by
  obtain ⟨route, t⟩ := e
  cases route with
  | exit => exact terminates_exit
  | delete => exact terminates_delete
  | detach => exact terminates_detach

structure TerminatesAll (s : KernelState κ) (es : List Termination) (s' : KernelState κ) :
    Prop where
  kinds : SameKinds s s'
  queue : ∀ p, s'.queue p = (s.queue p).diff (es.map Termination.thread)
  wait : ∀ k, s'.wait k = (s.wait k).diff (es.map Termination.thread)
  timerRow : ∀ i, s'.timerRow i = (s.timerRow i).diff (es.map Termination.thread)
  timerObjects : s'.timerObjects = s.timerObjects.diff (es.map Termination.thread)
  objects : s'.objects = s.objects.diff ((es.filter (unregisters s)).map Termination.thread)
  defunct : s'.rtThreadDefunct =
    ((es.filter (deferred s)).map Termination.thread).reverse ++ s.rtThreadDefunct
  cleanedUp : s'.cleanedUp = s.cleanedUp

theorem terminatesAll (honce : (es.map Termination.thread).Nodup)
    (hnew : ∀ e ∈ es, e.thread ∉ s.rtThreadDefunct) : TerminatesAll s es (terminateAll s es) := by
  induction es generalizing s with
  | nil =>
    exact ⟨.refl, fun _ => rfl, fun _ => rfl, fun _ => rfl, rfl, rfl, rfl, rfl⟩
  | cons e es ih =>
    have hstep := terminates s e
    rw [map_cons, nodup_cons] at honce
    have herase : s.rtThreadDefunct.erase e.thread = s.rtThreadDefunct :=
      erase_of_not_mem (hnew e mem_cons_self)
    have hdefunct := hstep.defunct
    rw [herase] at hdefunct
    have hrest := ih (s := terminate s e) honce.2 (by
      intro f hf hmem
      rw [hdefunct] at hmem
      have hold := hnew f (mem_cons_of_mem _ hf)
      split_ifs at hmem
      · obtain heq | hmem := mem_cons.mp hmem
        · exact honce.1 (heq ▸ mem_map_of_mem hf)
        · exact hold hmem
      · exact hold hmem)
    have hobjects := hrest.objects
    have hlisted := hrest.defunct
    rw [hstep.kinds.unregisters_eq, hstep.objects] at hobjects
    rw [hstep.kinds.deferred_eq, hdefunct] at hlisted
    constructor
    · exact ⟨fun t => (hrest.kinds.isSystemobject t).trans (hstep.kinds.isSystemobject t),
        fun t => (hrest.kinds.cleanup t).trans (hstep.kinds.cleanup t)⟩
    · exact fun p => (hrest.queue p).trans (by rw [hstep.queue, map_cons, diff_cons])
    · exact fun k => (hrest.wait k).trans (by rw [hstep.wait, map_cons, diff_cons])
    · exact fun i =>
        (hrest.timerRow i).trans (by rw [hstep.timerRow, map_cons, diff_cons])
    · exact hrest.timerObjects.trans (by rw [hstep.timerObjects, map_cons, diff_cons])
    · apply hobjects.trans
      by_cases hunregisters : unregisters s e = true
      · rw [if_pos hunregisters, filter_cons_of_pos hunregisters, map_cons,
          diff_cons]
      · rw [if_neg hunregisters, filter_cons_of_neg hunregisters]
    · apply hlisted.trans
      by_cases hdeferred : deferred s e = true
      · rw [if_pos hdeferred, filter_cons_of_pos hdeferred, map_cons,
          reverse_cons, append_assoc]
        rfl
      · rw [if_neg hdeferred, filter_cons_of_neg hdeferred]
    · exact hrest.cleanedUp.trans hstep.cleanedUp

/-- The lists behind the idle loop over `l`; it ends at the first static thread. -/
structure Idles (s : KernelState κ) (l : List Thread) (s' : KernelState κ) : Prop where
  kinds : SameKinds s s'
  queue : s'.queue = s.queue
  wait : s'.wait = s.wait
  timerRow : s'.timerRow = s.timerRow
  timerObjects : s'.timerObjects = s.timerObjects
  defunct : s'.rtThreadDefunct = [] ↔ ∀ t ∈ l.dropLast, (s.threads t).isSystemobject = false

def reap (s : KernelState κ) (t : Thread) (rest : List Thread) : KernelState κ :=
  { s with
    rtThreadDefunct := rest
    cleanedUp := s.cleanedUp ++ [t].filter fun t => (s.threads t).cleanup }

theorem idleLoop_cons (s : KernelState κ) (t : Thread) (rest : List Thread) :
    idleLoop (t :: rest) s = if (s.threads t).isSystemobject then reap s t rest
      else idleLoop rest ((reap s t rest).rtObjectDelete t) := by
  simp only [idleLoop, reap]
  by_cases hcallback : (s.threads t).cleanup = true
  · simp [hcallback]
  · simp [hcallback]

theorem idles {l : List Thread} (hdefunct : s.rtThreadDefunct = l) : Idles s l (idleLoop l s) := by
  induction l generalizing s with
  | nil => exact ⟨.refl, rfl, rfl, rfl, rfl, by simp [idleLoop, hdefunct]⟩
  | cons t rest ih =>
    rw [idleLoop_cons]
    by_cases hstatic : (s.threads t).isSystemobject = true
    · rw [if_pos hstatic]
      refine ⟨⟨fun _ => rfl, fun _ => rfl⟩, rfl, rfl, rfl, rfl, ?_⟩
      cases rest with
      | nil => simp [reap]
      | cons u rest => simp [reap, hstatic]
    · rw [if_neg hstatic]
      have hrest := ih (s := (reap s t rest).rtObjectDelete t) rfl
      refine ⟨⟨hrest.kinds.isSystemobject, hrest.kinds.cleanup⟩, hrest.queue, hrest.wait,
        hrest.timerRow, hrest.timerObjects, ?_⟩
      rw [hrest.defunct]
      cases rest with
      | nil => simp
      | cons u rest => simp [reap, KernelState.rtObjectDelete, hstatic]

/-- The idle loop cleans up all defunct threads when only the last is a system object. -/
theorem idles_complete {l : List Thread}
    (hdynamic : ∀ t ∈ l.dropLast, (s.threads t).isSystemobject = false) :
    (idleLoop l s).cleanedUp = s.cleanedUp ++ l.filter (fun t => (s.threads t).cleanup) ∧
      (idleLoop l s).objects =
        s.objects.diff (l.filter fun t => !(s.threads t).isSystemobject) := by
  induction l generalizing s with
  | nil => simp [idleLoop]
  | cons t rest ih =>
    rw [idleLoop_cons]
    by_cases hstatic : (s.threads t).isSystemobject = true
    · have hlast : rest = [] := by
        cases rest with
        | nil => rfl
        | cons u rest => simp [hstatic] at hdynamic
      subst hlast
      rw [if_pos hstatic]
      refine ⟨rfl, ?_⟩
      simp [reap, hstatic]
    · have hrest := ih (s := (reap s t rest).rtObjectDelete t) (by
        intro u hu
        apply hdynamic u
        cases rest with
        | nil => simp at hu
        | cons v rest => exact mem_cons_of_mem t hu)
      have hlisted : (t :: rest).filter (fun t => !(s.threads t).isSystemobject) =
          t :: rest.filter fun t => !(s.threads t).isSystemobject := by simp [hstatic]
      rw [if_neg hstatic, hrest.1, hrest.2, hlisted, diff_cons]
      refine ⟨?_, rfl⟩
      calc
        (reap s t rest).cleanedUp ++ rest.filter (fun t => (s.threads t).cleanup) =
            s.cleanedUp ++ ([t].filter (fun t => (s.threads t).cleanup) ++
              rest.filter fun t => (s.threads t).cleanup) := append_assoc _ _ _
        _ = s.cleanedUp ++ (t :: rest).filter fun t => (s.threads t).cleanup := by
          rw [← filter_append]
          rfl

theorem deferred_or_unregisters (s : KernelState κ) (e : Termination) :
    deferred s e = true ∨ unregisters s e = true := by
  obtain ⟨route, t⟩ := e
  cases route with
  | exit =>
    cases hcase : unregisters s ⟨.exit, t⟩ with
    | true => exact .inr rfl
    | false =>
      left
      have hdeferred : deferred s ⟨.exit, t⟩ = !unregisters s ⟨.exit, t⟩ := rfl
      rw [hdeferred, hcase]
      rfl
  | delete => exact .inl rfl
  | detach => exact .inr rfl

theorem not_unregisters (hdeferred : deferred s e = true)
    (hroute : e.route ≠ .detach) : unregisters s e = false := by
  obtain ⟨route, t⟩ := e
  cases route with
  | exit =>
    have heq : deferred s ⟨.exit, t⟩ = !unregisters s ⟨.exit, t⟩ := rfl
    rw [heq] at hdeferred
    exact Bool.eq_false_of_not_eq_true (by simpa using hdeferred)
  | delete => rfl
  | detach => contradiction

theorem unregisters_of_detach (hroute : e.route = .detach) : unregisters s e = true := by
  obtain ⟨route, t⟩ := e
  obtain rfl : route = .detach := hroute
  rfl

theorem deferred_of_cleanup (hcleanup : (s.threads e.thread).cleanup = true) :
    deferred s e = true := by
  obtain ⟨route, t⟩ := e
  cases route with
  | exit => simp [deferred, hcleanup]
  | delete => rfl
  | detach => exact hcleanup

namespace Ready

section

variable (hready : Ready s es)
include hready

theorem eq_of_thread_eq {f : Termination} (he : e ∈ es) (hf : f ∈ es)
    (heq : e.thread = f.thread) : e = f :=
  inj_on_of_nodup_map hready.once he hf heq

theorem defunct_eq : (terminateAll s es).rtThreadDefunct =
      ((es.filter (deferred s)).map Termination.thread).reverse := by
  have hall := terminatesAll hready.once (s := s) fun e _ => by simp [hready.defunct]
  rw [hall.defunct, hready.defunct, append_nil]

theorem defunct_nodup : (terminateAll s es).rtThreadDefunct.Nodup := by
  rw [hready.defunct_eq, nodup_reverse]
  exact hready.once.sublist (filter_sublist.map _)

theorem mem_defunct (he : e ∈ es) :
    e.thread ∈ (terminateAll s es).rtThreadDefunct ↔ deferred s e = true := by
  rw [hready.defunct_eq, mem_reverse, mem_map]
  constructor
  · rintro ⟨f, hf, heq⟩
    obtain ⟨hmem, hdeferred⟩ := mem_filter.mp hf
    exact hready.eq_of_thread_eq hmem he heq ▸ hdeferred
  · exact fun hdeferred => ⟨e, mem_filter.mpr ⟨he, hdeferred⟩, rfl⟩

theorem mem_objects (he : e ∈ es) :
    e.thread ∈ (terminateAll s es).objects ↔ unregisters s e = false := by
  have hall := terminatesAll hready.once (s := s) fun e _ => by simp [hready.defunct]
  rw [hall.objects, hready.objects_nodup.mem_sdiff_iff, mem_map]
  constructor
  · rintro ⟨-, hkept⟩
    apply Bool.eq_false_of_not_eq_true
    exact fun hunregisters => hkept ⟨e, mem_filter.mpr ⟨he, hunregisters⟩, rfl⟩
  · intro hkept
    refine ⟨hready.registered e he, ?_⟩
    rintro ⟨f, hf, heq⟩
    obtain ⟨hmem, hunregisters⟩ := mem_filter.mp hf
    rw [hready.eq_of_thread_eq hmem he heq, hkept] at hunregisters
    cases hunregisters

theorem dynamic_iff : (∀ t ∈ (terminateAll s es).rtThreadDefunct.dropLast,
      ((terminateAll s es).threads t).isSystemobject = false) ↔
      ∀ e ∈ es.filter (deferred s), (s.threads e.thread).isSystemobject →
        (es.filter (deferred s)).head? = some e := by
  have hall := terminatesAll hready.once (s := s) fun e _ => by simp [hready.defunct]
  have hnodup : (es.filter (deferred s)).Nodup := (Nodup.of_map _ hready.once).filter _
  rw [hready.defunct_eq]
  simp only [hall.kinds.isSystemobject]
  cases hlisted : es.filter (deferred s) with
  | nil => simp
  | cons f rest =>
    rw [hlisted, nodup_cons] at hnodup
    simp only [map_cons, reverse_cons, dropLast_concat, mem_reverse,
      mem_map, mem_cons, head?_cons, Option.some.injEq]
    constructor
    · rintro hdynamic e (rfl | he) hstatic
      · rfl
      · rw [hdynamic e.thread ⟨e, he, rfl⟩] at hstatic
        cases hstatic
    · rintro hfirst t ⟨e, he, rfl⟩
      apply Bool.eq_false_of_not_eq_true
      intro hstatic
      obtain rfl := hfirst e (.inr he) hstatic
      exact hnodup.1 he

end

end Ready

theorem sameKinds_idle (hready : Ready s es) :
    SameKinds s (rtThreadIdleExcute (terminateAll s es)) := by
  have hall := terminatesAll hready.once (s := s) fun e _ => by simp [hready.defunct]
  have hidle := idles (s := terminateAll s es) rfl
  exact ⟨fun t => (hidle.kinds.isSystemobject t).trans (hall.kinds.isSystemobject t),
    fun t => (hidle.kinds.cleanup t).trans (hall.kinds.cleanup t)⟩

/-- One call of `rt_thread_idle_excute` reclaims all threads exactly when every static thread
on the defunct list was detached, and listed before the others. -/
theorem reclaimed_iff (hready : Ready s es) :
    ((rtThreadIdleExcute (terminateAll s es)).rtThreadDefunct = [] ∧
      ∀ e ∈ es, Reclaimed (rtThreadIdleExcute (terminateAll s es)) e.thread) ↔
      StaticDetachedFirst s es := by
  have hall := terminatesAll hready.once (s := s) fun e _ => by simp [hready.defunct]
  have hidle := idles (s := terminateAll s es) rfl
  have hkinds := sameKinds_idle hready
  have hempty := hidle.defunct.trans hready.dynamic_iff
  unfold rtThreadIdleExcute at *
  constructor
  · rintro ⟨hdone, hreclaimed⟩ e he hstatic
    have hfirst := hempty.mp hdone
    refine ⟨?_, hfirst e he hstatic⟩
    by_contra hroute
    obtain ⟨hmem, hdeferred⟩ := mem_filter.mp he
    -- nobody takes such a thread out of the container
    apply (hreclaimed e hmem).object
    rw [(idles_complete (hready.dynamic_iff.mpr hfirst)).2]
    have hnodup : (terminateAll s es).objects.Nodup := by
      rw [hall.objects]
      exact hready.objects_nodup.diff
    rw [hnodup.mem_sdiff_iff]
    refine ⟨(hready.mem_objects hmem).mpr (not_unregisters hdeferred hroute), ?_⟩
    simp [mem_filter, hall.kinds.isSystemobject, hstatic]
  · intro hcondition
    have hfirst := fun e he hstatic => (hcondition e he hstatic).2
    have hdone := hempty.mpr hfirst
    obtain ⟨hcleanedUp, hobjects⟩ := idles_complete (hready.dynamic_iff.mpr hfirst)
    refine ⟨hdone, ?_⟩
    intro e he
    have hthread : e.thread ∈ es.map Termination.thread := mem_map_of_mem he
    constructor
    · intro p
      rw [hidle.queue, hall.queue, (hready.queue_nodup p).mem_sdiff_iff]
      exact fun hmem => hmem.2 hthread
    · intro k
      rw [hidle.wait, hall.wait, (hready.wait_nodup k).mem_sdiff_iff]
      exact fun hmem => hmem.2 hthread
    · intro i
      rw [hidle.timerRow, hall.timerRow, (hready.row_nodup i).mem_sdiff_iff]
      exact fun hmem => hmem.2 hthread
    · rw [hidle.timerObjects, hall.timerObjects, hready.timerObjects_nodup.mem_sdiff_iff]
      exact fun hmem => hmem.2 hthread
    · rw [hobjects]
      intro hmem
      have hregistered := (hready.mem_objects he).mp (diff_subset _ _ hmem)
      have hdeferred : deferred s e = true := by
        obtain hdeferred | hunregisters := deferred_or_unregisters s e
        · exact hdeferred
        · rw [hregistered] at hunregisters
          cases hunregisters
      have hlisted := mem_filter.mpr ⟨he, hdeferred⟩
      have hnodup : (terminateAll s es).objects.Nodup := by
        rw [hall.objects]
        exact hready.objects_nodup.diff
      have hstatic : (s.threads e.thread).isSystemobject = true := by
        by_contra hdynamic
        apply (hnodup.mem_sdiff_iff.mp hmem).2
        apply mem_filter.mpr ⟨(hready.mem_defunct he).mpr hdeferred, _⟩
        rw [hall.kinds.isSystemobject, Bool.eq_false_of_not_eq_true hdynamic]
        rfl
      rw [unregisters_of_detach (hcondition e hlisted hstatic).1] at hregistered
      cases hregistered
    · simp [hdone]
    · have hnone : (terminateAll s es).cleanedUp = [] := hall.cleanedUp.trans hready.cleanedUp
      rw [hcleanedUp, hkinds.cleanup, hnone, nil_append]
      simp only [hall.kinds.cleanup]
      split_ifs with hcallback
      · apply count_eq_one_of_mem (hready.defunct_nodup.filter _)
        exact mem_filter.mpr
          ⟨(hready.mem_defunct he).mpr (deferred_of_cleanup hcallback), hcallback⟩
      · apply count_eq_zero_of_not_mem
        exact fun hmem => hcallback (mem_filter.mp hmem).2

/-- Two static threads, of which the first has a callback, and a dynamic one with a callback;
the last two are ready, and the timer of the first runs. -/
def sampleState : KernelState Unit where
  threads := fun t =>
    if t = firstThread then ⟨true, true, false⟩
    else if t = secondThread then ⟨true, false, false⟩
    else ⟨false, true, false⟩
  queue := fun p => if p = 20 then [secondThread, thirdThread] else []
  wait := fun _ => [firstThread]
  timerRow := fun i => if i = 0 then [firstThread] else []
  timerObjects := [firstThread, secondThread, thirdThread]
  objects := [thirdThread, secondThread, firstThread]
  rtThreadDefunct := []
  cleanedUp := []
  freed := []

theorem ready_sampleState (hmem : ∀ e ∈ es, e.thread ∈ [thirdThread, secondThread, firstThread])
    (honce : (es.map Termination.thread).Nodup) : Ready sampleState es where
  queue_nodup p := by
    simp only [sampleState]
    split_ifs <;> decide
  wait_nodup _ := nodup_singleton _
  row_nodup i := by
    simp only [sampleState]
    split_ifs <;> decide
  timerObjects_nodup := by decide
  objects_nodup := by decide
  defunct := rfl
  cleanedUp := rfl
  registered := hmem
  once := honce

theorem reclaimed_of_sample_threads : (rtThreadIdleExcute (terminateAll sampleState
        [⟨.detach, firstThread⟩, ⟨.exit, secondThread⟩, ⟨.delete, thirdThread⟩])).rtThreadDefunct =
          [] ∧ ∀ e ∈ [(⟨.detach, firstThread⟩ : Termination), ⟨.exit, secondThread⟩,
          ⟨.delete, thirdThread⟩], Reclaimed (rtThreadIdleExcute (terminateAll sampleState
          [⟨.detach, firstThread⟩, ⟨.exit, secondThread⟩, ⟨.delete, thirdThread⟩])) e.thread := by
  apply (reclaimed_iff (ready_sampleState (by decide) (by decide))).mpr
  unfold StaticDetachedFirst
  decide

/-- A static thread with a callback which exits stays registered, and the thread listed
before it stays on the defunct list. -/
theorem not_reclaimed_of_static_exit : ∃ es, Ready sampleState es ∧
      (rtThreadIdleExcute (terminateAll sampleState es)).rtThreadDefunct = [thirdThread] ∧
      firstThread ∈ (rtThreadIdleExcute (terminateAll sampleState es)).objects ∧
      ¬((rtThreadIdleExcute (terminateAll sampleState es)).rtThreadDefunct = [] ∧
        ∀ e ∈ es, Reclaimed (rtThreadIdleExcute (terminateAll sampleState es)) e.thread) := by
  refine ⟨[⟨.delete, thirdThread⟩, ⟨.exit, firstThread⟩],
    ready_sampleState (by decide) (by decide), by decide, by decide, ?_⟩
  rintro ⟨hdone, -⟩
  cases hdone

end RtThread.ThreadReclaim
