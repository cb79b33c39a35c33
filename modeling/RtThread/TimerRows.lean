import RtThread.TimerModel
import RtThread.GuardedRun

/-!
# The rows of the timer lists

Both timer lists are skip lists in every run of starts, stops and removals.  As
long as the timeouts of the pending timers lie within half the range of the tick,
the last row does not depend on the other rows: it is the list which a kernel with
a single row keeps, in the order of the timeouts and, among equal timeouts, of the
starts.
-/

namespace RtThread.Timer

open Function List Word

variable {τ : Type} [DecidableEq τ] {cfg : SkipConfig} {s s' : TimerState τ} {t u : τ}
  {k : TimerList}

/-- The rows are skip lists of the active timers. -/
structure RowsInv (cfg : SkipConfig) (s : TimerState τ) : Prop where
  skip : ∀ k, SkipList.IsSkipList cfg.level (s.lists k)
  placed : ∀ k, ∀ t ∈ s.bottom cfg k, (s.timers t).list = k
  active : ∀ k, ∀ t ∈ s.bottom cfg k, (s.timers t).activated = true
  word : ∀ k, ∀ t ∈ s.bottom cfg k, (s.timers t).timeoutTick < 4294967296

def startedTimer (s : TimerState τ) (t : τ) : RtTimer :=
  { s.timers t with
    timeoutTick := add32 s.tick (s.timers t).initTick
    activated := true }

omit [DecidableEq τ] in
@[simp] theorem startedTimer_list : (startedTimer s t).list = (s.timers t).list := rfl

theorem stopsAt_startedTimer (u : τ) : stopsAt (update s.timers t
      { s.timers t with timeoutTick := add32 s.tick (s.timers t).initTick }) t u =
      stopsAt (update s.timers t (startedTimer s t)) t u := by
  unfold stopsAt startedTimer
  by_cases hu : u = t
  · simp [hu]
  · simp [hu]

theorem rtTimerStart_eq_some (hstart : rtTimerStart cfg s t = some s') :
    (s.timers t).activated = false ∧ s'.tick = s.tick ∧
      s'.timers = update s.timers t (startedTimer s t) ∧
      (∀ k, k ≠ (s.timers t).list → s'.lists k = s.lists k) ∧
      ∃ height, 0 < height ∧ s'.lists (s.timers t).list = SkipList.insertRows t
          (SkipList.cursorAt (stopsAt s'.timers t) (s.lists (s.timers t).list))
          cfg.level height (s.lists (s.timers t).list) := by
  unfold rtTimerStart at hstart
  split_ifs at hstart with hactive
  rw [Option.some.injEq] at hstart
  subst hstart
  refine ⟨by simpa using hactive, rfl, rfl, ?_, ?_⟩
  · intro k hk
    exact update_of_ne hk _ _
  · have hstops := funext (stopsAt_startedTimer (s := s) (t := t))
    rcases exists_height cfg t (update s.timers t
        { s.timers t with timeoutTick := add32 s.tick (s.timers t).initTick })
      (add32 s.randomNr 1) (s.lists (s.timers t).list) with ⟨height, hpos, hrows⟩
    refine ⟨height, hpos, ?_⟩
    rw [hstops] at hrows
    exact (update_self _ _ _).trans hrows

theorem rtTimerStart_of_inactive (cfg : SkipConfig) (hinactive : (s.timers t).activated = false) :
    ∃ s', rtTimerStart cfg s t = some s' := by
  unfold rtTimerStart
  rw [if_neg (by simp [hinactive])]
  exact ⟨_, rfl⟩

theorem rtTimerStart_of_active (hactive : (s.timers t).activated = true) :
    rtTimerStart cfg s t = none :=
  if_pos hactive

theorem afterTimeout_cases (cfg : SkipConfig) (s : TimerState τ) (t : τ) :
    ((s.timers t).periodic = true ∧ (s.timers t).activated = true ∧
      rtTimerStart cfg (setActivated s t false) t = some (afterTimeout cfg s t)) ∨
    (((s.timers t).periodic && (s.timers t).activated) = false ∧
      afterTimeout cfg s t = setActivated s t false) := by
  unfold afterTimeout
  cases hagain : (s.timers t).periodic && (s.timers t).activated with
  | false => exact .inr ⟨rfl, if_neg Bool.false_ne_true⟩
  | true =>
    have hinactive : ((setActivated s t false).timers t).activated = false := by simp
    rcases rtTimerStart_of_inactive cfg hinactive with ⟨s', hs'⟩
    rw [Bool.and_eq_true] at hagain
    left
    simp only [if_true, hs', Option.getD_some]
    exact ⟨hagain.1, hagain.2, trivial⟩

@[simp] theorem afterTimeout_tick : (afterTimeout cfg s t).tick = s.tick := by
  rcases afterTimeout_cases cfg s t with ⟨-, -, hstart⟩ | ⟨-, heq⟩
  · exact (rtTimerStart_eq_some hstart).2.1
  · rw [heq]
    rfl

namespace RowsInv

omit [DecidableEq τ] in
theorem mem_bottom (hrows : RowsInv cfg s) {r : ℕ} (hr : r < cfg.level) (ht : t ∈ s.lists k r) :
    t ∈ s.bottom cfg k :=
  ((hrows.skip k).sublist_of_le (by omega) (level_sub_lt cfg)).subset ht

omit [DecidableEq τ] in
theorem not_mem_of_inactive (hrows : RowsInv cfg s) (hinactive : (s.timers t).activated = false) :
    ∀ k, ∀ r < cfg.level, t ∉ s.lists k r := by
  intro k r hr ht
  have hactive := hrows.active k t (hrows.mem_bottom hr ht)
  rw [hinactive] at hactive
  cases hactive

omit [DecidableEq τ] in
theorem ne_of_inactive {k : TimerList} (hrows : RowsInv cfg s)
    (hinactive : (s.timers t).activated = false) (hu : u ∈ s.bottom cfg k) : u ≠ t := by
  rintro rfl
  exact hrows.not_mem_of_inactive hinactive k _ (level_sub_lt cfg) hu

omit [DecidableEq τ] in
theorem of_empty (hlists : ∀ k r, s.lists k r = []) : RowsInv cfg s := by
  have hbottom : ∀ k, s.bottom cfg k = [] := fun k => hlists k _
  constructor
  · intro k
    constructor
    · intro r _
      rw [hlists]
      exact nodup_nil
    · intro r _
      rw [hlists, hlists]
  · intro k u hu
    rw [hbottom] at hu
    cases hu
  · intro k u hu
    rw [hbottom] at hu
    cases hu
  · intro k u hu
    rw [hbottom] at hu
    cases hu

omit [DecidableEq τ] in
theorem of_timers (hrows : RowsInv cfg s) (hlists : s'.lists = s.lists)
    (hsame : ∀ k, ∀ u ∈ s.bottom cfg k, (s'.timers u).list = (s.timers u).list ∧
      (s'.timers u).activated = (s.timers u).activated ∧
      (s'.timers u).timeoutTick = (s.timers u).timeoutTick) : RowsInv cfg s' := by
  have hbottom : ∀ k, s'.bottom cfg k = s.bottom cfg k := fun k => by
    unfold TimerState.bottom
    rw [hlists]
  constructor
  · intro k
    rw [hlists]
    exact hrows.skip k
  · intro k u hu
    rw [hbottom] at hu
    rw [(hsame k u hu).1]
    exact hrows.placed k u hu
  · intro k u hu
    rw [hbottom] at hu
    rw [(hsame k u hu).2.1]
    exact hrows.active k u hu
  · intro k u hu
    rw [hbottom] at hu
    rw [(hsame k u hu).2.2]
    exact hrows.word k u hu

section

variable (hrows : RowsInv cfg s)
include hrows

theorem rtTimerRemove (t : τ) : RowsInv cfg (rtTimerRemove s t) := by
  constructor
  · intro k
    exact (hrows.skip k).erase t
  · intro k u hu
    exact hrows.placed k u (mem_of_mem_erase hu)
  · intro k u hu
    exact hrows.active k u (mem_of_mem_erase hu)
  · intro k u hu
    exact hrows.word k u (mem_of_mem_erase hu)

theorem not_mem_rtTimerRemove (t : τ) : ∀ k, t ∉ (Timer.rtTimerRemove s t).bottom cfg k := by
  intro k
  exact ((hrows.skip k).nodup _ (level_sub_lt cfg)).not_mem_erase

theorem mem_rtTimerRemove :
    u ∈ (Timer.rtTimerRemove s t).bottom cfg k ↔ u ≠ t ∧ u ∈ s.bottom cfg k :=
  ((hrows.skip k).nodup _ (level_sub_lt cfg)).mem_erase_iff

theorem bottom_rtTimerStart_perm (hstart : rtTimerStart cfg s t = some s') :
    (s'.bottom cfg (s.timers t).list).Perm (t :: s.bottom cfg (s.timers t).list) := by
  rcases rtTimerStart_eq_some hstart with ⟨-, -, -, -, height, hpos, hlists⟩
  unfold TimerState.bottom
  rw [hlists, SkipList.insertRows, if_pos ⟨by omega, level_sub_lt cfg⟩]
  exact (hrows.skip _).insertAfter_perm (level_sub_lt cfg)

section

variable (hstart : Timer.rtTimerStart cfg s t = some s')
include hstart

theorem mem_rtTimerStart :
    u ∈ s'.bottom cfg k ↔ (u = t ∧ k = (s.timers t).list) ∨ u ∈ s.bottom cfg k := by
  by_cases hk : k = (s.timers t).list
  · rw [hk, (hrows.bottom_rtTimerStart_perm hstart).mem_iff, mem_cons]
    simp
  · have hother := (rtTimerStart_eq_some hstart).2.2.2.1 k hk
    unfold TimerState.bottom
    rw [hother]
    simp [hk]

theorem bottom_rtTimerStart
    (hmono : (s.bottom cfg (s.timers t).list).Pairwise fun a b =>
      stopsAt s'.timers t a = true → stopsAt s'.timers t b = true) :
    s'.bottom cfg (s.timers t).list =
      SkipList.insertBefore (stopsAt s'.timers t) t (s.bottom cfg (s.timers t).list) := by
  rcases rtTimerStart_eq_some hstart with ⟨-, -, -, -, height, hpos, hlists⟩
  have hskip := hrows.skip (s.timers t).list
  unfold TimerState.bottom
  rw [hlists, SkipList.insertRows, if_pos ⟨by omega, level_sub_lt cfg⟩]
  apply hskip.insertAfter_eq_insertBefore _ (level_sub_lt cfg)
  intro r hr
  exact hmono.sublist (hskip.sublist_of_le (by omega) (level_sub_lt cfg))

theorem rtTimerStart : RowsInv cfg s' := by
  rcases rtTimerStart_eq_some hstart with ⟨hinactive, -, htimers, hother, height, hpos, hlists⟩
  have hfresh := hrows.not_mem_of_inactive hinactive
  have hne : ∀ k, ∀ u ∈ s.bottom cfg k, u ≠ t := fun k u hu => hrows.ne_of_inactive hinactive hu
  constructor
  · intro k
    by_cases hk : k = (s.timers t).list
    · rw [hk, hlists]
      exact (hrows.skip _).insertRows (hfresh _)
    · rw [hother k hk]
      exact hrows.skip k
  · intro k u hu
    rw [htimers]
    rcases (hrows.mem_rtTimerStart hstart).mp hu with ⟨rfl, rfl⟩ | hu
    · rw [update_self]
      rfl
    · rw [update_of_ne (hne k u hu)]
      exact hrows.placed k u hu
  · intro k u hu
    rw [htimers]
    rcases (hrows.mem_rtTimerStart hstart).mp hu with ⟨rfl, rfl⟩ | hu
    · rw [update_self]
      rfl
    · rw [update_of_ne (hne k u hu)]
      exact hrows.active k u hu
  · intro k u hu
    rw [htimers]
    rcases (hrows.mem_rtTimerStart hstart).mp hu with ⟨rfl, rfl⟩ | hu
    · rw [update_self]
      exact add32_lt _ _
    · rw [update_of_ne (hne k u hu)]
      exact hrows.word k u hu

end

theorem rtTimerStop (hstop : Timer.rtTimerStop s t = some s') : RowsInv cfg s' := by
  unfold Timer.rtTimerStop at hstop
  split_ifs at hstop with hactive
  rw [Option.some.injEq] at hstop
  subst hstop
  apply (hrows.rtTimerRemove t).of_timers
  · rfl
  · intro k u hu
    have hne : u ≠ t := (hrows.mem_rtTimerRemove.mp hu).1
    simp [hne]

theorem rtTimerControl (t : τ) (command : TimerControl) :
    RowsInv cfg (Timer.rtTimerControl s t command) := by
  apply hrows.of_timers
  · cases command <;> rfl
  · intro k u hu
    by_cases hut : u = t
    · subst hut
      cases command <;> simp [Timer.rtTimerControl] <;> rfl
    · cases command <;> simp [Timer.rtTimerControl, hut]

end

omit [DecidableEq τ] in
theorem activated_of_linked (hrows : RowsInv cfg s) (ht : Linked cfg s t) :
    (s.timers t).activated = true := by
  rcases ht with ⟨k, hk⟩
  exact hrows.active k t hk

section

variable (hrows : RowsInv cfg s)
include hrows

theorem linked_rtTimerStart
    (hstart : Timer.rtTimerStart cfg s t = some s') : Linked cfg s' u ↔ u = t ∨ Linked cfg s u := by
  constructor
  · rintro ⟨k, hk⟩
    rcases (hrows.mem_rtTimerStart hstart).mp hk with ⟨rfl, -⟩ | hk
    · exact .inl rfl
    · exact .inr ⟨k, hk⟩
  · rintro (rfl | ⟨k, hk⟩)
    · exact ⟨_, (hrows.mem_rtTimerStart hstart).mpr (.inl ⟨rfl, rfl⟩)⟩
    · exact ⟨k, (hrows.mem_rtTimerStart hstart).mpr (.inr hk)⟩

theorem linked_rtTimerRemove : Linked cfg (Timer.rtTimerRemove s t) u ↔ u ≠ t ∧ Linked cfg s u := by
  constructor
  · rintro ⟨k, hk⟩
    have hparts := hrows.mem_rtTimerRemove.mp hk
    exact ⟨hparts.1, k, hparts.2⟩
  · rintro ⟨hne, k, hk⟩
    exact ⟨k, hrows.mem_rtTimerRemove.mpr ⟨hne, hk⟩⟩

theorem setActivated (activated : Bool) (ht : ¬Linked cfg s t) :
    RowsInv cfg (setActivated s t activated) := by
  apply hrows.of_timers
  · rfl
  · intro k u hu
    have hne : u ≠ t := by
      rintro rfl
      exact ht ⟨k, hu⟩
    simp [hne]

theorem afterTimeout (ht : ¬Linked cfg s t) :
    RowsInv cfg (afterTimeout cfg s t) ∧ (∀ u, Linked cfg (Timer.afterTimeout cfg s t) u ↔
        (u = t ∧ (s.timers t).periodic = true ∧ (s.timers t).activated = true) ∨ Linked cfg s u) ∧
      (∀ u, u ≠ t → (Timer.afterTimeout cfg s t).timers u = s.timers u) ∧
      ((Timer.afterTimeout cfg s t).timers t).activated =
        ((s.timers t).periodic && (s.timers t).activated) := by
  have hstopped := hrows.setActivated false ht
  rcases afterTimeout_cases cfg s t with ⟨hperiodic, hactive, hstart⟩ | ⟨hnot, heq⟩
  · rcases rtTimerStart_eq_some hstart with ⟨-, -, htimers, -⟩
    refine ⟨hstopped.rtTimerStart hstart, ?_, ?_, ?_⟩
    · intro u
      rw [hstopped.linked_rtTimerStart hstart]
      simp [hperiodic, hactive]
    · intro u hu
      simp [htimers, hu]
    · simp [htimers, startedTimer, hperiodic, hactive]
  · have hfalse : ¬((s.timers t).periodic = true ∧ (s.timers t).activated = true) := by
      rw [← Bool.and_eq_true, hnot]
      exact Bool.false_ne_true
    rw [heq]
    refine ⟨hstopped, ?_, ?_, ?_⟩
    · intro u
      simp only [hfalse, and_false, false_or]
      exact linked_setActivated false
    · intro u hu
      simp [hu]
    · simp [hnot]

theorem mem_afterTimeout (ht : ¬Linked cfg s t) (hu : u ∈ s.bottom cfg k) :
    u ∈ (Timer.afterTimeout cfg s t).bottom cfg k := by
  rcases afterTimeout_cases cfg s t with ⟨-, -, hstart⟩ | ⟨-, heq⟩
  · exact ((hrows.setActivated false ht).mem_rtTimerStart hstart).mpr (.inr hu)
  · rw [heq]
    exact hu

end

end RowsInv

end RtThread.Timer
