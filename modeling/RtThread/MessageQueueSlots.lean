import RtThread.MessageQueueModel

/-!
# The slots and the order of messages

Every slot is on the free list, in the queue or held by a call between its two
sections.  The queue is compared with the list of messages which the log of linking
and taking sections leaves; a message stays in the slot which carries it until the
call that has taken the slot gives it back.
-/

namespace RtThread.MessageQueue

open Function List Ipc

variable {a : AlignSize} {area : MqArea a} {s s' : MqState} {t : Thread} {f : Frame}
  {free queued : List ℕ} {msg : ℕ} {op : Op}

/-! ## The pool -/

namespace MqArea

theorem slot_eq {i : ℕ} (hi : i < area.maxMsgs) : area.slot i = area.msgpool + i * area.stride ∧
      area.msgpool + i * area.stride < 4294967296 := by
  have hfits := area.fits
  have hle : area.maxMsgs ≤ area.poolSize / area.stride := Nat.mod_le _ _
  have hmul : (i + 1) * area.stride ≤ area.poolSize := by
    calc
      (i + 1) * area.stride ≤ area.poolSize / area.stride * area.stride :=
        Nat.mul_le_mul_right _ (by lia)
      _ ≤ area.poolSize := Nat.div_mul_le_self _ _
  have hstride : 0 < area.stride := Nat.succ_pos _
  rw [Nat.succ_mul] at hmul
  refine ⟨?_, by lia⟩
  unfold slot
  rw [Word.mul32_eq_of_lt (by lia), Word.add32_eq_of_lt (by lia)]

theorem slot_ne_null {i : ℕ} (hi : i < area.maxMsgs) : area.slot i ≠ rtNull := by
  have hpos := area.msgpool_pos
  rw [(slot_eq hi).1]
  unfold rtNull
  omega

theorem slot_inj {i j : ℕ} (hi : i < area.maxMsgs) (hj : j < area.maxMsgs)
    (heq : area.slot i = area.slot j) : i = j := by
  rw [(slot_eq hi).1, (slot_eq hj).1] at heq
  have hstride : 0 < area.stride := Nat.succ_pos _
  exact Nat.eq_of_mul_eq_mul_right hstride (by omega)

theorem slots_nodup (area : MqArea a) : area.slots.Nodup := by
  apply Nodup.map_on _ nodup_range
  intro i hi j hj
  exact slot_inj (mem_range.mp hi) (mem_range.mp hj)

theorem ne_null_of_mem (hmem : msg ∈ area.slots) : msg ≠ rtNull := by
  obtain ⟨i, hi, rfl⟩ := mem_map.mp hmem
  exact slot_ne_null (mem_range.mp hi)

theorem length_slots (area : MqArea a) : area.slots.length = area.maxMsgs := by
  simp [slots]

end MqArea

theorem linkedTo_init (area : MqArea a) (next : ℕ → ℕ) (k : ℕ) (hk : k ≤ area.maxMsgs) : LinkedTo
      ((List.range k).foldl
        (fun list temp => (update list.1 (area.slot temp) list.2, area.slot temp))
        (next, rtNull)).1 rtNull ((List.range k).foldl
        (fun list temp => (update list.1 (area.slot temp) list.2, area.slot temp))
        (next, rtNull)).2 ((List.range k).reverse.map area.slot) := by
  induction k with
  | zero => rfl
  | succ k ih =>
    simp only [range_succ, foldl_append, foldl_cons, foldl_nil,
      reverse_append, reverse_cons, reverse_nil, nil_append,
      singleton_append, map_cons]
    apply (ih (by lia)).push (MqArea.slot_ne_null (by lia))
    intro hmem
    obtain ⟨i, hi, heq⟩ := mem_map.mp hmem
    rw [mem_reverse, mem_range] at hi
    have hik := MqArea.slot_inj (by lia) (by lia) heq
    lia

/-! ## The messages -/

def LogEntry.apply (messages : List (List UInt8)) : LogEntry → List (List UInt8)
  | .linked true buffer => buffer :: messages
  | .linked false buffer => messages ++ [buffer]
  | .taken => messages.tail
  | .reset => []

def contents (log : List LogEntry) : List (List UInt8) := log.foldl LogEntry.apply []

theorem contents_append (log : List LogEntry) (entry : LogEntry) :
    contents (log ++ [entry]) = entry.apply (contents log) := by
  simp [contents, foldl_append]

/-- The message at the front of the queue was taken off there, and this is how much of it
has been received. -/
def Delivered (log : List LogEntry) (size : ℕ) (buffer : List UInt8) (takenAt : ℕ) : Prop :=
  log[takenAt]? = some .taken ∧ ∃ front, (contents (log.take takenAt)).head? = some front ∧
      buffer.take (min front.length size) = front.take (min front.length size)

def Carries (area : MqArea a) (data : ℕ → List UInt8) (msg : ℕ) (buffer : List UInt8) : Prop :=
  buffer <+: data msg ∧ buffer.length ≤ area.msgSize

def Op.Good (area : MqArea a) (s : MqState) : Op → Prop
  | .send _ _ buffer false => buffer.length ≤ area.msgSize
  | .send urgent msg buffer true =>
    Carries area s.data msg buffer ∧ (urgent = false → s.next msg = rtNull)
  | .recv msg _ none takenAt =>
    s.log[takenAt]? = some .taken ∧ ∃ front, (contents (s.log.take takenAt)).head? = some front ∧
        Carries area s.data msg front
  | .recv _ size (some buffer) takenAt => Delivered s.log size buffer takenAt

def Return.Good (log : List LogEntry) : Return → Prop
  | .recv .eok size buffer takenAt => Delivered log size buffer takenAt
  | _ => True

def Op.takenAt : Op → Option ℕ
  | .send _ _ _ _ => none
  | .recv _ _ _ takenAt => some takenAt

def Return.takenAt : Return → Option ℕ
  | .recv .eok _ _ takenAt => some takenAt
  | _ => none

def takings (ops : List Op) (returns : List Return) : List ℕ :=
  ops.filterMap Op.takenAt ++ returns.filterMap Return.takenAt

/-- The slots are free, queued or in the hands of a call, and the queue carries the log. -/
structure MqInv (area : MqArea a) (s : MqState) (free queued : List ℕ) : Prop where
  free_linked : LinkedTo s.next rtNull s.msgQueueFree free
  queued_linked : LinkedTo s.next rtNull s.msgQueueHead queued
  tail_eq : s.msgQueueTail = queued.getLastD rtNull
  entry_eq : s.entry = queued.length
  partition : (free ++ queued ++ s.ops.map Op.msg).Perm area.slots
  carried : List.Forall₂ (Carries area s.data) queued (contents s.log)
  ops_good : ∀ op ∈ s.ops, op.Good area s
  returns_good : ∀ r ∈ s.returns, r.Good s.log
  takings_nodup : (takings s.ops s.returns).Nodup
  takings_lt : ∀ i ∈ takings s.ops s.returns, i < s.log.length

/-! ## The log grows -/

theorem getElem?_of_append {log : List LogEntry} {i : ℕ} (hget : log[i]? = some .taken)
    (entry : LogEntry) :
    (log ++ [entry])[i]? = some .taken ∧ (log ++ [entry]).take i = log.take i := by
  have hlt : i < log.length := (List.getElem?_eq_some_iff.mp hget).1
  exact ⟨by rw [getElem?_append_left hlt, hget], take_append_of_le_length hlt.le⟩

theorem Delivered.append {log : List LogEntry} {size takenAt : ℕ} {buffer : List UInt8}
    (hdelivered : Delivered log size buffer takenAt) (entry : LogEntry) :
    Delivered (log ++ [entry]) size buffer takenAt := by
  obtain ⟨hget, hfront⟩ := hdelivered
  obtain ⟨hget', htake⟩ := getElem?_of_append hget entry
  unfold Delivered
  rw [htake]
  exact ⟨hget', hfront⟩

theorem Return.Good.append {log : List LogEntry} {r : Return} (hgood : r.Good log)
    (entry : LogEntry) : r.Good (log ++ [entry]) := by
  cases r with
  | send code => trivial
  | recv code size buffer takenAt =>
    cases code with
    | eok => exact Delivered.append hgood entry
    | error | etimeout | efull | eempty => trivial

theorem Op.Good.of_slot (hgood : op.Good area s) (hdata : s'.data op.msg = s.data op.msg)
    (hnext : s'.next op.msg = s.next op.msg)
    (hlog : s'.log = s.log ∨ ∃ entry, s'.log = s.log ++ [entry]) : op.Good area s' := by
  cases op with
  | send urgent msg buffer copied =>
    cases copied with
    | false => exact hgood
    | true =>
      simp only [Op.msg] at hdata hnext
      simp only [Op.Good, Carries, hdata, hnext] at hgood ⊢
      exact hgood
  | recv msg size buffer takenAt =>
    cases buffer with
    | none =>
      simp only [Op.msg] at hdata
      simp only [Op.Good, Carries, hdata] at hgood ⊢
      obtain hsame | ⟨entry, happend⟩ := hlog
      · rw [hsame]
        exact hgood
      · obtain ⟨hget', htake⟩ := getElem?_of_append hgood.1 entry
        rw [happend, htake]
        exact ⟨hget', hgood.2⟩
    | some buffer =>
      simp only [Op.Good] at hgood ⊢
      obtain hsame | ⟨entry, happend⟩ := hlog
      · rw [hsame]
        exact hgood
      · rw [happend]
        exact Delivered.append hgood entry

theorem carried_congr {data data' : ℕ → List UInt8} {messages : List (List UInt8)}
    (hcarried : List.Forall₂ (Carries area data) queued messages)
    (hdata : ∀ msg ∈ queued, data' msg = data msg) :
    List.Forall₂ (Carries area data') queued messages := by
  induction hcarried with
  | nil => exact .nil
  | cons hhead _ ih =>
    refine .cons ?_ (ih fun msg hmsg => hdata msg (mem_cons_of_mem _ hmsg))
    unfold Carries
    rw [hdata _ mem_cons_self]
    exact hhead

theorem takings_cons_ops (op : Op) (ops : List Op) (returns : List Return) :
    takings (op :: ops) returns = op.takenAt.toList ++ takings ops returns := by
  cases htaken : op.takenAt with
  | none | some i => simp [takings, htaken]

theorem takings_cons_returns (ops : List Op) (r : Return) (returns : List Return) :
    (takings ops (r :: returns)).Perm (r.takenAt.toList ++ takings ops returns) := by
  cases htaken : r.takenAt with
  | none => simp [takings, htaken]
  | some i => simp [takings, htaken, perm_middle]

theorem takings_erase {ops : List Op} (hop : op ∈ ops) (returns : List Return) :
    (takings ops returns).Perm (op.takenAt.toList ++ takings (ops.erase op) returns) := by
  rw [← takings_cons_ops]
  exact ((perm_cons_erase hop).filterMap _).append_right _

/-! ## The lists without their messages -/

structure Slots (area : MqArea a) (s : MqState) (free queued : List ℕ) : Prop where
  free_linked : LinkedTo s.next rtNull s.msgQueueFree free
  queued_linked : LinkedTo s.next rtNull s.msgQueueHead queued
  tail_eq : s.msgQueueTail = queued.getLastD rtNull
  partition : (free ++ queued ++ s.ops.map Op.msg).Perm area.slots

structure SameBut (s s' : MqState) (queued : List ℕ) : Prop where
  next_eq : ∀ x, x ∉ queued → s'.next x = s.next x
  core_eq : s'.core = s.core
  data_eq : s'.data = s.data
  ops_eq : s'.ops = s.ops
  log_eq : s'.log = s.log
  returns_eq : s'.returns = s.returns

namespace Slots

variable {rest : List ℕ}

theorem nodup (hslots : Slots area s free queued) : (free ++ queued ++ s.ops.map Op.msg).Nodup :=
  hslots.partition.nodup_iff.mpr area.slots_nodup

theorem unlinkHead (hslots : Slots area s free (msg :: rest)) : s.msgQueueHead = msg ∧
      LinkedTo s.next rtNull (unlinkHead s).msgQueueHead rest ∧
      (unlinkHead s).msgQueueTail = rest.getLastD rtNull := by
  obtain ⟨hhead, -, hrest⟩ := hslots.queued_linked
  have htail := hslots.tail_eq
  have hnodup := hslots.nodup
  rw [nodup_append, nodup_append] at hnodup
  have hfresh : msg ∉ rest := (nodup_cons.mp hnodup.1.2.1).1
  refine ⟨hhead, ?_, ?_⟩
  · simp only [MessageQueue.unlinkHead, hhead]
    exact hrest
  · simp only [MessageQueue.unlinkHead, hhead, htail]
    obtain hnil | ⟨xs, last, hconcat⟩ := rest.eq_nil_or_concat
    · simp [hnil]
    · have hne : last ≠ msg := by
        intro heq
        exact hfresh (by simp [hconcat, heq])
      rw [hconcat, concat_eq_append, getLastD_concat, ← cons_append,
        getLastD_concat, if_neg hne]

theorem release (hslots : Slots area s free (msg :: rest)) :
    Slots area (linkFree (MessageQueue.unlinkHead s) s.msgQueueHead) (msg :: free) rest := by
  obtain ⟨hhead, hlinked, htail⟩ := hslots.unlinkHead
  have hnull : msg ≠ rtNull := hslots.queued_linked.2.1
  have hnodup := hslots.nodup
  rw [nodup_append, nodup_append] at hnodup
  have hfresh : msg ∉ rest := (nodup_cons.mp hnodup.1.2.1).1
  have hfree : msg ∉ free := fun hmem => hnodup.1.2.2 msg hmem msg mem_cons_self rfl
  rw [hhead]
  constructor
  · exact hslots.free_linked.push hnull hfree
  · exact hlinked.write hfresh _
  · exact htail
  · have hmoved : (msg :: free ++ rest ++ s.ops.map Op.msg).Perm
        (free ++ (msg :: rest) ++ s.ops.map Op.msg) :=
      (perm_middle.symm).append_right _
    exact hmoved.trans hslots.partition

theorem releaseAll {fuel : ℕ} (hslots : Slots area s free queued) (hfuel : queued.length ≤ fuel) :
    ∃ s' free', releaseAll fuel s = some s' ∧ Slots area s' free' [] ∧ SameBut s s' queued := by
  induction fuel generalizing s free queued with
  | zero =>
    have hnil : queued = [] := eq_nil_of_length_eq_zero (Nat.le_zero.mp hfuel)
    rw [hnil] at hslots ⊢
    exact ⟨s, free, if_pos hslots.queued_linked, hslots, fun _ _ => rfl, rfl, rfl, rfl, rfl, rfl⟩
  | succ fuel ih =>
    rw [releaseAll]
    cases queued with
    | nil =>
      exact ⟨s, free, if_pos hslots.queued_linked, hslots, fun _ _ => rfl, rfl, rfl, rfl, rfl, rfl⟩
    | cons msg rest =>
      obtain ⟨hhead, hnull, -⟩ := hslots.queued_linked
      rw [if_neg (by rw [hhead]; exact hnull)]
      obtain ⟨s', free', hall, hslots', hsame⟩ := ih hslots.release (by simpa using hfuel)
      refine ⟨s', free', hall, hslots', ?_, hsame.core_eq, hsame.data_eq, hsame.ops_eq,
        hsame.log_eq, hsame.returns_eq⟩
      intro x hx
      rw [mem_cons, not_or] at hx
      rw [hsame.next_eq x hx.2]
      exact update_of_ne (by rw [hhead]; exact hx.1) _ _

end Slots

namespace MqInv

/-! ## Who holds a slot -/

section

variable (hinv : MqInv area s free queued)
include hinv

theorem nodup : (free ++ queued ++ s.ops.map Op.msg).Nodup :=
  hinv.partition.nodup_iff.mpr area.slots_nodup

theorem ne_null (hmem : msg ∈ free ++ queued ++ s.ops.map Op.msg) : msg ≠ rtNull :=
  MqArea.ne_null_of_mem (hinv.partition.mem_iff.mp hmem)

theorem held_apart (hop : op ∈ s.ops) :
    op.msg ∉ free ∧ op.msg ∉ queued ∧ ∀ other ∈ s.ops.erase op, other.msg ≠ op.msg := by
  have hheld : op.msg ∈ s.ops.map Op.msg := mem_map_of_mem hop
  have hnodup := hinv.nodup
  rw [append_assoc, nodup_append] at hnodup
  obtain ⟨-, hrest, hfree⟩ := hnodup
  rw [nodup_append] at hrest
  obtain ⟨-, hops, hqueued⟩ := hrest
  refine ⟨?_, ?_, ?_⟩
  · intro hmem
    exact hfree _ hmem _ (mem_append_right _ hheld) rfl
  · intro hmem
    exact hqueued _ hmem _ hheld rfl
  · intro other hother heq
    have hperm := (perm_cons_erase hop).map Op.msg
    rw [hperm.nodup_iff, map_cons, nodup_cons] at hops
    exact hops.1 (heq ▸ mem_map_of_mem hother)

theorem free_apart (hfree : msg ∈ free) : msg ∉ queued := by
  intro hqueued
  have hall := hinv.nodup
  rw [nodup_append, nodup_append] at hall
  exact hall.1.2.2 msg hfree msg hqueued rfl

theorem queued_nodup : queued.Nodup := by
  have hall := hinv.nodup
  rw [nodup_append, nodup_append] at hall
  exact hall.1.2.1

theorem held_ne_null (hop : op ∈ s.ops) : op.msg ≠ rtNull :=
  hinv.ne_null (mem_append_right _ (mem_map_of_mem hop))

theorem entry_le : free.length + queued.length + s.ops.length = area.maxMsgs := by
  have hlength := hinv.partition.length_eq
  simpa [MqArea.length_slots, Nat.add_assoc] using hlength

end

theorem maxMsgs_lt (area : MqArea a) : area.maxMsgs < 65536 := Nat.mod_lt _ (by decide)

/-! ## Sections which leave the slots alone -/

section

variable (hinv : MqInv area s free queued)
include hinv

theorem withThreads (core : Core Unit) (tick : ℕ)
    (frame : Thread → Option Frame) :
    MqInv area { s with core := core, tick := tick, frame := frame } free queued :=
  ⟨hinv.free_linked, hinv.queued_linked, hinv.tail_eq, hinv.entry_eq, hinv.partition,
    hinv.carried, hinv.ops_good, hinv.returns_good, hinv.takings_nodup, hinv.takings_lt⟩

theorem fail {r : Return} (hgood : r.Good s.log)
    (htaken : r.takenAt = none) : MqInv area { s with returns := r :: s.returns } free queued := by
  have htakings : takings s.ops (r :: s.returns) = takings s.ops s.returns := by
    simp [takings, htaken]
  refine ⟨hinv.free_linked, hinv.queued_linked, hinv.tail_eq, hinv.entry_eq,
    hinv.partition, hinv.carried, hinv.ops_good, ?_, ?_, ?_⟩
  · intro r' hr'
    obtain rfl | hold := mem_cons.mp hr'
    · exact hgood
    · exact hinv.returns_good r' hold
  · rw [htakings]
    exact hinv.takings_nodup
  · rw [htakings]
    exact hinv.takings_lt

theorem replaceOp {op' : Op} (hop : op ∈ s.ops)
    (hmsg : op'.msg = op.msg) (htaken : op'.takenAt = op.takenAt) (hgood : op'.Good area s) :
    MqInv area { s with ops := op' :: s.ops.erase op } free queued := by
  have hslots := (perm_cons_erase hop).map Op.msg
  have htakings : (takings (op' :: s.ops.erase op) s.returns).Perm (takings s.ops s.returns) := by
    rw [takings_cons_ops, htaken]
    exact (takings_erase hop s.returns).symm
  refine ⟨hinv.free_linked, hinv.queued_linked, hinv.tail_eq, hinv.entry_eq, ?_,
    hinv.carried, ?_, hinv.returns_good, ?_, ?_⟩
  · simp only [map_cons, hmsg]
    exact (hslots.symm.append_left _).trans hinv.partition
  · intro other hother
    obtain rfl | hold := mem_cons.mp hother
    · exact hgood
    · exact hinv.ops_good other (mem_of_mem_erase hold)
  · exact htakings.nodup_iff.mpr hinv.takings_nodup
  · intro i hi
    exact hinv.takings_lt i (htakings.mem_iff.mp hi)

end

/-! ## Sending -/

section

variable (hinv : MqInv area s free queued)
include hinv

theorem takeFree (urgent : Bool) (buffer : List UInt8) :
    ∃ free', MqInv area (takeFree area.msgSize urgent s buffer) free' queued := by
  unfold MessageQueue.takeFree
  by_cases hlong : area.msgSize < buffer.length
  · rw [if_pos hlong]
    exact ⟨free, hinv.fail trivial rfl⟩
  by_cases hfull : s.msgQueueFree = rtNull
  · rw [if_neg hlong, if_pos hfull]
    exact ⟨free, hinv.fail trivial rfl⟩
  rw [if_neg hlong, if_neg hfull]
  have hlinked := hinv.free_linked
  have hpartition := hinv.partition
  cases free with
  | nil => contradiction
  | cons msg rest =>
    obtain ⟨hmsg, -, hrest⟩ := hlinked
    rw [hmsg]
    refine ⟨rest, hrest, hinv.queued_linked, hinv.tail_eq, hinv.entry_eq, ?_,
      hinv.carried, ?_, hinv.returns_good, ?_, ?_⟩
    · exact perm_middle.trans hpartition
    · intro op hop
      obtain rfl | hold := mem_cons.mp hop
      · exact Nat.le_of_not_lt hlong
      · exact hinv.ops_good op hold
    · exact hinv.takings_nodup
    · exact hinv.takings_lt

theorem copyIn {urgent : Bool} {buffer : List UInt8}
    (hop : .send urgent msg buffer false ∈ s.ops) : MqInv area
      { copyIn urgent s msg buffer with
        ops := .send urgent msg buffer true :: s.ops.erase (.send urgent msg buffer false) }
      free queued := by
  obtain ⟨hfree, hqueued, hothers⟩ := hinv.held_apart hop
  have hnext : ∀ x, x ≠ msg → (MessageQueue.copyIn urgent s msg buffer).next x = s.next x := by
    intro x hx
    simp only [MessageQueue.copyIn]
    split_ifs
    · rfl
    · exact update_of_ne hx _ _
  have hdata : ∀ x, x ≠ msg → (MessageQueue.copyIn urgent s msg buffer).data x = s.data x :=
    fun x hx => update_of_ne hx _ _
  have hcopied : MqInv area
      { s with ops := .send urgent msg buffer false :: s.ops.erase (.send urgent msg buffer false) }
      free queued :=
    hinv.replaceOp hop rfl rfl (hinv.ops_good _ hop)
  constructor
  · exact hinv.free_linked.congr fun x hx => hnext x fun heq => hfree (heq ▸ hx)
  · exact hinv.queued_linked.congr fun x hx => hnext x fun heq => hqueued (heq ▸ hx)
  · exact hinv.tail_eq
  · exact hinv.entry_eq
  · exact hcopied.partition
  · exact carried_congr hinv.carried fun x hx => hdata x fun heq => hqueued (heq ▸ hx)
  · intro op' hop'
    obtain rfl | hold := mem_cons.mp hop'
    · refine ⟨⟨?_, hinv.ops_good _ hop⟩, ?_⟩
      · change buffer <+: update s.data msg (rtMemcpy (s.data msg) buffer) msg
        rw [update_self]
        exact prefix_append _ _
      · rintro rfl
        exact update_self _ _ _
    · have hne := hothers op' hold
      exact (hinv.ops_good op' (mem_of_mem_erase hold)).of_slot (hdata _ hne)
        (hnext _ hne) (.inl rfl)
  · exact hinv.returns_good
  · exact hcopied.takings_nodup
  · exact hcopied.takings_lt

theorem tail_eq_null_iff :
    s.msgQueueTail = rtNull ↔ queued = [] := by
  rw [hinv.tail_eq]
  obtain hnil | ⟨xs, last, hqueued⟩ := queued.eq_nil_or_concat
  · simp [hnil]
  · have hlast : last ≠ rtNull := by
      apply hinv.ne_null
      simp [hqueued]
    simp [hqueued, hlast]

end

structure Extends (s s' : MqState) (queued : List ℕ) : Prop where
  linked : LinkedTo s'.next rtNull s'.msgQueueHead queued
  tail_eq : s'.msgQueueTail = queued.getLastD rtNull
  next_eq : ∀ x, x ∉ queued → s'.next x = s.next x
  entry_eq : s'.entry = Word.succ16 s.entry
  free_eq : s'.msgQueueFree = s.msgQueueFree
  data_eq : s'.data = s.data
  log_eq : s'.log = s.log
  returns_eq : s'.returns = s.returns

section

variable (hinv : MqInv area s free queued)
include hinv

theorem linkFront (hnull : msg ≠ rtNull) (hfresh : msg ∉ queued) :
    Extends s (linkFront s msg) (msg :: queued) := by
  refine ⟨hinv.queued_linked.push hnull hfresh, ?_, ?_, rfl, rfl, rfl, rfl, rfl⟩
  · have hiff := hinv.tail_eq_null_iff
    have htail := hinv.tail_eq
    simp only [MessageQueue.linkFront]
    cases queued with
    | nil => simp [hiff]
    | cons x xs =>
      rw [if_neg (by simp [hiff]), htail]
      rfl
  · intro x hx
    rw [mem_cons, not_or] at hx
    exact update_of_ne hx.1 _ _

theorem linkBack (hnull : msg ≠ rtNull)
    (hnodup : (queued ++ [msg]).Nodup) (hnext : s.next msg = rtNull) :
    Extends s (linkBack s msg) (queued ++ [msg]) := by
  have htail := hinv.tail_eq_null_iff
  have hhead := hinv.queued_linked.eq_nil_iff
  obtain hnil | ⟨xs, last, hqueued⟩ := queued.eq_nil_or_concat
  · rw [MessageQueue.linkBack, if_neg (not_not.mpr (htail.mpr hnil)), if_pos (hhead.mpr hnil), hnil]
    exact ⟨⟨rfl, hnull, hnext⟩, rfl, fun _ _ => rfl, rfl, rfl, rfl, rfl, rfl⟩
  · have hne : queued ≠ [] := by simp [hqueued]
    have hlast : s.msgQueueTail = last := by
      rw [hinv.tail_eq, hqueued, concat_eq_append, getLastD_concat]
    have hlinked := hinv.queued_linked
    rw [MessageQueue.linkBack, if_pos (htail.not.mpr hne), if_neg (hhead.not.mpr hne), hlast]
    rw [hqueued, concat_eq_append] at hlinked hnodup ⊢
    refine ⟨hlinked.append hnodup hnull hnext, getLastD_concat.symm, ?_,
      rfl, rfl, rfl, rfl, rfl⟩
    intro x hx
    apply update_of_ne
    intro heq
    exact hx (by simp [heq])

theorem of_linked {urgent : Bool} {buffer : List UInt8} {queued' : List ℕ} {core : Core Unit}
    (hop : .send urgent msg buffer true ∈ s.ops)
    (hqueue : Extends s s' queued') (hperm : queued'.Perm (msg :: queued))
    (hcarried : List.Forall₂ (Carries area s.data) queued'
      ((LogEntry.linked urgent buffer).apply (contents s.log))) : MqInv area
      { s' with
        core := core
        log := s'.log ++ [.linked urgent buffer]
        returns := .send .eok :: s'.returns
        ops := s.ops.erase (.send urgent msg buffer true) }
      free queued' := by
  obtain ⟨hfree, hqueued, hothers⟩ := hinv.held_apart hop
  have hmem : ∀ x, x ∈ queued' ↔ x = msg ∨ x ∈ queued := by
    intro x
    rw [hperm.mem_iff, mem_cons]
  have htakings := takings_erase hop s.returns
  generalize hrest : s.ops.erase (.send urgent msg buffer true) = rest at *
  constructor
  · rw [hqueue.free_eq]
    apply hinv.free_linked.congr
    intro x hx
    apply hqueue.next_eq
    rw [hmem, not_or]
    exact ⟨fun heq => hfree (heq ▸ hx), hinv.free_apart hx⟩
  · exact hqueue.linked
  · exact hqueue.tail_eq
  · have hlength := hinv.entry_le
    have hmax := maxMsgs_lt area
    have hpos : 0 < s.ops.length := length_pos_of_mem hop
    rw [hqueue.entry_eq, hperm.length_eq, length_cons, ← hinv.entry_eq]
    apply Word.succ16_eq_of_lt
    rw [hinv.entry_eq]
    omega
  · have hslots : (s.ops.map Op.msg).Perm (msg :: rest.map Op.msg) := by
      rw [← hrest]
      exact (perm_cons_erase hop).map Op.msg
    calc
      (free ++ queued' ++ rest.map Op.msg).Perm (free ++ (msg :: queued) ++ rest.map Op.msg) :=
        (hperm.append_left _).append_right _
      _ = free ++ (msg :: (queued ++ rest.map Op.msg)) := by
        rw [append_assoc, cons_append]
      List.Perm _ (free ++ (queued ++ msg :: rest.map Op.msg)) :=
        perm_middle.symm.append_left _
      _ = free ++ queued ++ (msg :: rest.map Op.msg) := (append_assoc _ _ _).symm
      List.Perm _ (free ++ queued ++ s.ops.map Op.msg) := hslots.symm.append_left _
      List.Perm _ area.slots := hinv.partition
  · simp only [hqueue.data_eq, hqueue.log_eq, contents_append]
    exact hcarried
  · intro other hother
    have hold : other ∈ s.ops := by
      rw [← hrest] at hother
      exact mem_of_mem_erase hother
    refine (hinv.ops_good other hold).of_slot (congrFun hqueue.data_eq _) ?_
      (.inr ⟨.linked urgent buffer, by rw [hqueue.log_eq]⟩)
    apply hqueue.next_eq
    rw [hmem, not_or]
    exact ⟨hothers other hother, (hinv.held_apart hold).2.1⟩
  · intro r hr
    rw [hqueue.log_eq]
    rw [hqueue.returns_eq] at hr
    obtain rfl | hold := mem_cons.mp hr
    · trivial
    · exact (hinv.returns_good r hold).append _
  · rw [hqueue.returns_eq]
    exact htakings.nodup_iff.mp hinv.takings_nodup
  · intro i hi
    rw [hqueue.returns_eq] at hi
    rw [hqueue.log_eq, length_append]
    exact (hinv.takings_lt i (htakings.mem_iff.mpr hi)).trans_le (Nat.le_add_right _ _)

theorem link {urgent : Bool} {buffer : List UInt8}
    (hop : .send urgent msg buffer true ∈ s.ops) : ∃ queued', MqInv area
      { link urgent s msg buffer with ops := s.ops.erase (.send urgent msg buffer true) }
      free queued' := by
  have hqueued : msg ∉ queued := (hinv.held_apart hop).2.1
  have hnull : msg ≠ rtNull := hinv.held_ne_null hop
  obtain ⟨hcarries, hnext⟩ := hinv.ops_good _ hop
  cases urgent with
  | true =>
    refine ⟨msg :: queued, ?_⟩
    exact hinv.of_linked hop (hinv.linkFront hnull hqueued) (Perm.refl _)
      (.cons hcarries hinv.carried)
  | false =>
    refine ⟨queued ++ [msg], ?_⟩
    have hnodup : (queued ++ [msg]).Nodup :=
      hinv.queued_nodup.append (nodup_singleton _) (by simpa using hqueued)
    exact hinv.of_linked hop (hinv.linkBack hnull hnodup (hnext rfl))
      (perm_append_singleton _ _)
      (rel_append hinv.carried (.cons hcarries .nil))

end

/-! ## Receiving -/

theorem slots (hinv : MqInv area s free queued) : Slots area s free queued :=
  ⟨hinv.free_linked, hinv.queued_linked, hinv.tail_eq, hinv.partition⟩

theorem take {rest : List ℕ} (hinv : MqInv area s free (msg :: rest)) (size : ℕ) : MqInv area
      { unlinkHead s with
        entry := Word.pred16 s.entry
        ops := .recv s.msgQueueHead size none s.log.length :: s.ops
        log := s.log ++ [.taken] }
      free rest := by
  obtain ⟨hhead, hlinked, htail⟩ := hinv.slots.unlinkHead
  rw [hhead]
  have hentry := hinv.entry_eq
  have hfresh : s.log.length ∉ takings s.ops s.returns :=
    fun hmem => absurd (hinv.takings_lt _ hmem) (lt_irrefl _)
  obtain ⟨front, messages, hcontents, hcarries, hcarried⟩ :
      ∃ front messages, contents s.log = front :: messages ∧ Carries area s.data msg front ∧
        List.Forall₂ (Carries area s.data) rest messages := by
    have hall := hinv.carried
    cases hcontents : contents s.log with
    | nil =>
      rw [hcontents] at hall
      cases hall
    | cons front messages =>
      rw [hcontents] at hall
      obtain ⟨hcarries, hcarried⟩ := List.forall₂_cons.mp hall
      exact ⟨front, messages, rfl, hcarries, hcarried⟩
  constructor
  · exact hinv.free_linked
  · exact hlinked
  · exact htail
  · change Word.pred16 s.entry = rest.length
    rw [hentry, length_cons, Word.pred16_eq_of_pos (Nat.succ_pos _)]
    rfl
  · have hmoved : (free ++ rest ++ msg :: s.ops.map Op.msg).Perm
        (free ++ (msg :: rest) ++ s.ops.map Op.msg) := by
      rw [append_assoc, append_assoc, cons_append]
      exact perm_middle.append_left _
    exact hmoved.trans hinv.partition
  · change List.Forall₂ (Carries area s.data) rest (contents (s.log ++ [.taken]))
    rw [contents_append, hcontents]
    exact hcarried
  · intro op hop
    obtain rfl | hold := mem_cons.mp hop
    · refine ⟨by simp, front, ?_, hcarries⟩
      rw [take_left, hcontents]
      rfl
    · exact (hinv.ops_good op hold).of_slot rfl rfl (.inr ⟨.taken, rfl⟩)
  · intro r hr
    exact (hinv.returns_good r hr).append _
  · rw [takings_cons_ops]
    exact nodup_cons.mpr ⟨hfresh, hinv.takings_nodup⟩
  · intro i hi
    rw [takings_cons_ops] at hi
    rw [length_append]
    obtain rfl | hold := mem_cons.mp hi
    · exact Nat.lt_succ_self _
    · exact (hinv.takings_lt i hold).trans_le (Nat.le_add_right _ _)

section

variable (hinv : MqInv area s free queued)
include hinv

theorem recvLoop (t : Thread) (f : Frame) :
    ∃ queued', MqInv area (recvLoop area.flag s t f) free queued' := by
  unfold MessageQueue.recvLoop
  by_cases hempty : s.entry = 0
  · rw [if_pos hempty]
    by_cases htime : f.timeout = 0
    · simp only [htime, if_true]
      exact ⟨queued, (hinv.withThreads _ _ _).fail trivial rfl⟩
    · simp only [htime, if_false]
      exact ⟨queued, hinv.withThreads _ _ _⟩
  · rw [if_neg hempty]
    cases queued with
    | nil => exact absurd hinv.entry_eq hempty
    | cons msg rest => exact ⟨rest, hinv.take f.size⟩

theorem rtMqRecv (t : Thread) (size : ℕ) (timeout : ℤ) :
    ∃ queued', MqInv area (rtMqRecv area.flag s t size timeout) free queued' := by
  unfold MessageQueue.rtMqRecv
  by_cases hempty : s.entry = 0 ∧ timeout = 0
  · rw [if_pos hempty]
    exact ⟨queued, hinv.fail trivial rfl⟩
  · rw [if_neg hempty]
    exact hinv.recvLoop t _

theorem resumed (t : Thread) (f : Frame) :
    ∃ queued', MqInv area (resumed area.flag s t f) free queued' := by
  unfold MessageQueue.resumed
  have hcleared := hinv.withThreads s.core s.tick (update s.frame t none)
  by_cases hcode : (s.core.threads t).error ≠ .eok
  · simp only [if_pos hcode]
    refine ⟨queued, hcleared.fail ?_ ?_⟩
    · cases herror : (s.core.threads t).error with
      | eok => contradiction
      | error | etimeout => trivial
    · cases herror : (s.core.threads t).error with
      | eok => contradiction
      | error | etimeout => rfl
  · simp only [if_neg hcode]
    exact hcleared.recvLoop t _

end

theorem delivered_take {size takenAt : ℕ} {front : List UInt8}
    (htaken : s.log[takenAt]? = some .taken)
    (hfront : (contents (s.log.take takenAt)).head? = some front)
    (hcarries : Carries area s.data msg front) :
    Delivered s.log size ((s.data msg).take (min size area.msgSize)) takenAt := by
  obtain ⟨⟨rest, hdata⟩, hlength⟩ := hcarries
  refine ⟨htaken, front, hfront, ?_⟩
  rw [take_take, ← hdata]
  have hmin : min (min front.length size) (min size area.msgSize) = min front.length size := by
    omega
  rw [hmin, take_append_of_le_length (Nat.min_le_left _ _)]

theorem release {size takenAt : ℕ} {buffer : List UInt8} (hinv : MqInv area s free queued)
    (hop : .recv msg size (some buffer) takenAt ∈ s.ops) : MqInv area
      { linkFree s msg with
        ops := s.ops.erase (.recv msg size (some buffer) takenAt)
        returns := .recv .eok size buffer takenAt :: s.returns }
      (msg :: free) queued := by
  obtain ⟨hfree, hqueued, hothers⟩ := hinv.held_apart hop
  have hnull := hinv.held_ne_null hop
  have hgood := hinv.ops_good _ hop
  have hslots := (perm_cons_erase hop).map Op.msg
  have htakings : (takings (s.ops.erase (.recv msg size (some buffer) takenAt))
      (.recv .eok size buffer takenAt :: s.returns)).Perm (takings s.ops s.returns) :=
    (takings_cons_returns _ _ _).trans (takings_erase hop s.returns).symm
  constructor
  · exact hinv.free_linked.push hnull hfree
  · exact hinv.queued_linked.write hqueued _
  · exact hinv.tail_eq
  · exact hinv.entry_eq
  · have hmoved : (msg :: free ++ queued ++
        (s.ops.erase (.recv msg size (some buffer) takenAt)).map Op.msg).Perm
        (free ++ queued ++ msg ::
          (s.ops.erase (.recv msg size (some buffer) takenAt)).map Op.msg) := by
      rw [cons_append, cons_append]
      exact perm_middle.symm
    exact (hmoved.trans (hslots.symm.append_left _)).trans hinv.partition
  · exact hinv.carried
  · intro other hother
    have hne := hothers other hother
    exact (hinv.ops_good other (mem_of_mem_erase hother)).of_slot rfl
      (update_of_ne hne _ _) (.inl rfl)
  · intro r hr
    obtain rfl | hold := mem_cons.mp hr
    · exact hgood
    · exact hinv.returns_good r hold
  · exact htakings.nodup_iff.mpr hinv.takings_nodup
  · intro i hi
    exact hinv.takings_lt i (htakings.mem_iff.mp hi)

theorem proceed (hinv : MqInv area s free queued) (hop : op ∈ s.ops) :
    ∃ free' queued', MqInv area (proceed area.msgSize s op) free' queued' := by
  cases op with
  | send urgent msg buffer copied =>
    cases copied with
    | false => exact ⟨free, queued, hinv.copyIn hop⟩
    | true =>
      obtain ⟨queued', hlinked⟩ := hinv.link hop
      exact ⟨free, queued', hlinked⟩
  | recv msg size buffer takenAt =>
    cases buffer with
    | none =>
      obtain ⟨htaken, front, hfront, hcarries⟩ := hinv.ops_good _ hop
      exact ⟨free, queued, hinv.replaceOp hop rfl rfl (delivered_take htaken hfront hcarries)⟩
    | some buffer => exact ⟨msg :: free, queued, hinv.release hop⟩

/-! ## Reset and runs -/

theorem rtMqReset (hlinked : Linked s.core) (hinv : MqInv area s free queued) :
    ∃ s' free', rtMqReset area.maxMsgs s = some s' ∧ Linked s'.core ∧ MqInv area s' free' [] := by
  obtain ⟨core, hresumed, hlinked', -⟩ :=
    hlinked.rtIpcListResumeAll (le_refl (s.core.wait ()).length)
  have hlength := hinv.entry_le
  obtain ⟨s', free', hreleased, hslots, hsame⟩ :=
    (hinv.withThreads core s.tick s.frame).slots.releaseAll
      (by omega : queued.length ≤ area.maxMsgs)
  refine ⟨{ s' with entry := 0, log := s'.log ++ [.reset] }, free', ?_, ?_, ?_⟩
  · simp [MessageQueue.rtMqReset, hresumed, hreleased]
  · rw [hsame.core_eq]
    exact hlinked'
  constructor
  · exact hslots.free_linked
  · exact hslots.queued_linked
  · exact hslots.tail_eq
  · rfl
  · exact hslots.partition
  · rw [contents_append]
    exact .nil
  · intro op hop
    rw [hsame.ops_eq] at hop
    exact (hinv.ops_good op hop).of_slot (congrFun hsame.data_eq _)
      (hsame.next_eq _ (hinv.held_apart hop).2.1) (.inr ⟨.reset, by rw [hsame.log_eq]⟩)
  · intro r hr
    rw [hsame.returns_eq] at hr
    rw [hsame.log_eq]
    exact (hinv.returns_good r hr).append _
  · rw [hsame.ops_eq, hsame.returns_eq]
    exact hinv.takings_nodup
  · intro i hi
    rw [hsame.ops_eq, hsame.returns_eq] at hi
    rw [hsame.log_eq, length_append]
    exact (hinv.takings_lt i hi).trans_le (Nat.le_add_right _ _)

end MqInv

end RtThread.MessageQueue
