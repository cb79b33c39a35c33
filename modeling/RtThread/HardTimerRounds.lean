import RtThread.HardTimerModel

/-!
# The rounds of a check

The pending timeouts lie in a window in front of the tick which is shorter than half the
range of the tick, so that the list is sorted by the timeouts as they are without
wrap-around.  A timer started with delay zero has the tick of its start for its timeout and
expires with the next tick.
-/

namespace RtThread.Timer.HardTimer

open Function List Option Word ClockState

variable {τ : Type} [DecidableEq τ] {cfg : SkipConfig} {s s' : ClockState τ} {t u : τ}
  {low : ℕ}

/-- Calls with the same tick come in the order of the timeouts, and those with the same
timeout in the order of the starts. -/
def Call.Before (a b : Call τ) : Prop :=
  a.tick < b.tick ∨
    a.tick = b.tick ∧ (a.timeout < b.timeout ∨ a.timeout = b.timeout ∧ a.start < b.start)

/-! ## The order of the list -/

def Earlier (timeout order : τ → ℕ) (t u : τ) : Prop :=
  timeout t < timeout u ∨ timeout t = timeout u ∧ order t < order u

omit [DecidableEq τ] in
theorem stopsAt_iff {timers : τ → RtTimer} {x y base : ℕ}
    (hx : (timers t).timeoutTick = x % 4294967296) (hy : (timers u).timeoutTick = y % 4294967296)
    (hxbase : base ≤ x ∧ x < base + rtTickMax / 2) (hybase : base ≤ y ∧ y < base + rtTickMax / 2) :
    stopsAt timers t u = true ↔ x < y := by
  have hcompare : sub32 (y % 4294967296) (x % 4294967296) ≠ 0 ∧
      sub32 (y % 4294967296) (x % 4294967296) < rtTickMax / 2 ↔ x < y := by
    unfold sub32 rtTickMax at *
    omega
  simp [stopsAt, hx, hy, ← hcompare]

theorem pairwise_started {c c' : TimerState τ} {timeout order : τ → ℕ} (base : ℕ)
    (hrows : RowsInv cfg c) (hstart : rtTimerStart cfg c t = some c')
    (hlist : (c.timers t).list = .hard)
    (hsorted : (c.bottom cfg .hard).Pairwise (Earlier timeout order))
    (hwindow : ∀ u ∈ c'.bottom cfg .hard, (c'.timers u).timeoutTick = timeout u % 4294967296 ∧
      base ≤ timeout u ∧ timeout u < base + rtTickMax / 2)
    (horder : ∀ u ∈ c.bottom cfg .hard, order u < order t) :
    (c'.bottom cfg .hard).Pairwise (Earlier timeout order) := by
  have hmem := fun u => hrows.mem_rtTimerStart (u := u) (k := .hard) hstart
  have hself := hwindow t ((hmem t).mpr (.inl ⟨rfl, hlist.symm⟩))
  have hstops : ∀ u ∈ c.bottom cfg .hard,
      (stopsAt c'.timers t u = true ↔ timeout t < timeout u) := by
    intro u hu
    have hother := hwindow u ((hmem u).mpr (.inr hu))
    exact stopsAt_iff hself.1 hother.1 hself.2 hother.2
  have hmono : (c.bottom cfg .hard).Pairwise fun a b =>
      stopsAt c'.timers t a = true → stopsAt c'.timers t b = true := by
    apply hsorted.imp_of_mem
    intro a b ha hb hearlier
    rw [hstops a ha, hstops b hb]
    obtain hless | ⟨hsame, -⟩ := hearlier
    · exact fun h => h.trans hless
    · exact fun h => h.trans_eq hsame
  have hbottom := hrows.bottom_rtTimerStart hstart (by rw [hlist]; exact hmono)
  rw [hlist] at hbottom
  rw [hbottom]
  apply SkipList.pairwise_insertBefore hsorted hmono
  · intro a ha hnot
    have hle : timeout a ≤ timeout t := by
      rw [← not_lt, ← hstops a ha, hnot]
      exact Bool.false_ne_true
    exact hle.lt_or_eq.imp_right fun hsame => ⟨hsame, horder a ha⟩
  · intro b hb hstop
    exact .inl ((hstops b hb).mp hstop)

/-! ## The invariant -/

/-- A timer in the list which was started at a tick.  It expires behind the tick `low`, or
it was started with delay zero at that tick. -/
structure Pending (s : ClockState τ) (low : ℕ) (t : τ) (startedAt : ℕ) : Prop where
  started : s.startedAt t = some startedAt
  before : startedAt ≤ low
  called : s.called t = (List.range (s.called t).length).map fun k =>
    startedAt + (k + 1) * (s.core.timers t).initTick
  again : s.called t ≠ [] → (s.core.timers t).periodic = true
  timeoutTick : (s.core.timers t).timeoutTick = s.timeout t % 4294967296
  ahead : low < s.timeout t ∨ s.timeout t = low ∧ (s.core.timers t).initTick = 0
  near : s.timeout t ≤ s.now + (s.core.timers t).initTick

def Idle (s : ClockState τ) (t : τ) : Prop :=
  match s.startedAt t with
  | none => s.called t = []
  | some startedAt => (s.core.timers t).periodic = false ∧
      s.called t = [startedAt + max (s.core.timers t).initTick 1] ∧
      startedAt + max (s.core.timers t).initTick 1 ≤ s.now

/-- All calls until the tick `low` have been made, and those of the present tick which come
first. -/
structure ClockInv (cfg : SkipConfig) (low : ℕ) (s : ClockState τ) : Prop where
  rows : RowsInv cfg s.core
  tick : s.core.tick = s.now % 4294967296
  ticks : ProperTicks s
  linked : ∀ t, (s.core.timers t).activated = true → t ∈ s.core.bottom cfg (s.core.timers t).list
  pending : ∀ t ∈ s.core.bottom cfg .hard, ∃ startedAt, Pending s low t startedAt
  idle : ∀ t, (s.core.timers t).list = .hard → (s.core.timers t).activated = false → Idle s t
  sorted : (s.core.bottom cfg .hard).Pairwise (Earlier s.timeout s.order)
  order : ∀ t ∈ s.core.bottom cfg .hard, s.order t < s.starts
  marks : ∀ t, s.mark t ≤ s.log.length
  timeouts : ∀ call ∈ s.log, call.tick =
    call.timeout + if (s.core.timers call.timer).initTick = 0 then 1 else 0
  inOrder : s.log.Pairwise Call.Before
  past : ∀ call ∈ s.log, call.tick ≤ low ∨ call.tick = s.now ∧ call.timeout ≤ s.now ∧
    ∀ t ∈ s.core.bottom cfg .hard, call.timeout < s.timeout t ∨
      call.timeout = s.timeout t ∧ call.start < s.order t

/-! ## What a timer's calls depend on -/

theorem called_congr (hlog : s'.log.drop (s'.mark t) = s.log.drop (s.mark t)) :
    s'.called t = s.called t := by
  unfold called
  rw [hlog]

theorem timeout_congr (hstartedAt : s'.startedAt t = s.startedAt t)
    (hcalled : s'.called t = s.called t)
    (hinitTick : (s'.core.timers t).initTick = (s.core.timers t).initTick) :
    s'.timeout t = s.timeout t := by
  unfold timeout
  rw [hstartedAt, hcalled, hinitTick]

theorem Pending.congr {startedAt : ℕ} (hpending : Pending s low t startedAt)
    (htimer : s'.core.timers t = s.core.timers t) (hstartedAt : s'.startedAt t = s.startedAt t)
    (hcalled : s'.called t = s.called t) (hnow : s.now ≤ s'.now) : Pending s' low t startedAt := by
  have htimeout : s'.timeout t = s.timeout t := timeout_congr hstartedAt hcalled (by rw [htimer])
  constructor
  · rw [hstartedAt, hpending.started]
  · exact hpending.before
  · rw [hcalled, htimer]
    exact hpending.called
  · rw [hcalled, htimer]
    exact hpending.again
  · rw [htimer, htimeout]
    exact hpending.timeoutTick
  · rw [htimer, htimeout]
    exact hpending.ahead
  · rw [htimer, htimeout]
    exact hpending.near.trans (Nat.add_le_add_right hnow _)

theorem Idle.congr (hidle : Idle s t)
    (hperiodic : (s'.core.timers t).periodic = (s.core.timers t).periodic)
    (hinitTick : (s'.core.timers t).initTick = (s.core.timers t).initTick)
    (hstartedAt : s'.startedAt t = s.startedAt t) (hcalled : s'.called t = s.called t)
    (hnow : s.now ≤ s'.now) : Idle s' t := by
  unfold Idle at *
  rw [hstartedAt]
  cases hstart : s.startedAt t with
  | none =>
    simp only [hstart] at hidle ⊢
    rw [hcalled, hidle]
  | some startedAt =>
    simp only [hstart] at hidle ⊢
    rw [hcalled, hperiodic, hinitTick]
    exact ⟨hidle.1, hidle.2.1, hidle.2.2.trans hnow⟩

/-! ## The beginning and the end of a check -/

namespace ClockInv

theorem incrementTick (hinv : ClockInv cfg s.now s) :
    ClockInv cfg s.now (HardTimer.incrementTick s) :=
  { hinv with
    rows := hinv.rows.of_timers rfl fun _ _ _ => ⟨rfl, rfl, rfl⟩
    tick := by
      simp only [HardTimer.incrementTick, hinv.tick, add32]
      omega
    pending t ht := by
      obtain ⟨startedAt, hpending⟩ := hinv.pending t ht
      exact ⟨startedAt, hpending.congr rfl rfl rfl (Nat.le_succ _)⟩
    idle t hlist hinactive := (hinv.idle t hlist hinactive).congr rfl rfl rfl rfl (Nat.le_succ _)
    past call hcall := by
      obtain hpast | ⟨hnow, -⟩ := hinv.past call hcall
      · exact .inl hpast
      · exact .inl hnow.le }

/-- The comparison modulo 2^32 agrees with that of the deadlines. -/
theorem expired_iff (hinv : ClockInv cfg low s) (hlow : low + 1 = s.now)
    (ht : t ∈ s.core.bottom cfg .hard) :
    expired s.core.tick (s.core.timers t) = true ↔ s.timeout t ≤ s.now := by
  obtain ⟨startedAt, hpending⟩ := hinv.pending t ht
  have hahead := hpending.ahead
  have hnear := hpending.near
  have hhalf := (hinv.ticks t).1
  unfold expired
  rw [decide_eq_true_eq, hpending.timeoutTick, hinv.tick]
  unfold sub32 rtTickMax at *
  omega

theorem finish (hinv : ClockInv cfg low s) (hlow : low + 1 = s.now)
    (hnone : expiredHead cfg s.core s.core.tick = none) : ClockInv cfg s.now s := by
  have hlater : ∀ t ∈ s.core.bottom cfg .hard, s.now < s.timeout t := by
    have hsorted := hinv.sorted
    unfold expiredHead at hnone
    cases hbottom : s.core.bottom cfg .hard with
    | nil => exact nofun
    | cons first rest =>
      have hmem : first ∈ s.core.bottom cfg .hard := by simp [hbottom]
      have hfirst : s.now < s.timeout first := by
        rw [← not_le, ← hinv.expired_iff hlow hmem]
        simpa [hbottom] using hnone
      intro t ht
      rw [hbottom, pairwise_cons] at hsorted
      obtain rfl | hrest := mem_cons.mp ht
      · exact hfirst
      · obtain hless | ⟨hsame, -⟩ := hsorted.1 t hrest
        · exact hfirst.trans hless
        · exact hfirst.trans_eq hsame
  refine { hinv with
    pending := fun t ht => ?_
    past := fun call hcall => ?_ }
  · obtain ⟨startedAt, hpending⟩ := hinv.pending t ht
    refine ⟨startedAt, { hpending with before := ?_, ahead := .inl (hlater t ht) }⟩
    exact hpending.before.trans (by omega)
  · obtain hpast | ⟨hnow, -⟩ := hinv.past call hcall
    · exact .inl (by omega)
    · exact .inl hnow.le

end ClockInv

/-! ## One round of a check -/

omit [DecidableEq τ] in
theorem exists_of_expiredHead {c : TimerState τ} (hhead : expiredHead cfg c c.tick = some t) :
    ∃ rest, c.bottom cfg .hard = t :: rest ∧ expired c.tick (c.timers t) = true := by
  obtain ⟨hfirst, hexpired⟩ := filter_eq_some_iff.mp hhead
  obtain ⟨rest, hrest⟩ := head?_eq_some_iff.mp hfirst
  exact ⟨rest, hrest, hexpired⟩

theorem afterTimeout_settings (cfg : SkipConfig) (c : TimerState τ) (t u : τ) :
    ((afterTimeout cfg c t).timers u).initTick = (c.timers u).initTick ∧
      ((afterTimeout cfg c t).timers u).periodic = (c.timers u).periodic ∧
      ((afterTimeout cfg c t).timers u).list = (c.timers u).list := by
  have hset : ∀ (timer : RtTimer), timer.initTick = (c.timers t).initTick →
      timer.periodic = (c.timers t).periodic → timer.list = (c.timers t).list →
      (update c.timers t timer u).initTick = (c.timers u).initTick ∧
        (update c.timers t timer u).periodic = (c.timers u).periodic ∧
        (update c.timers t timer u).list = (c.timers u).list := by
    intro timer hinitTick hperiodic hlist
    by_cases hut : u = t
    · subst hut
      simp [hinitTick, hperiodic, hlist]
    · simp [hut]
  obtain ⟨-, -, hstart⟩ | ⟨-, hsame⟩ := afterTimeout_cases cfg c t
  · rw [(rtTimerStart_eq_some hstart).2.2.1, setActivated_timers, update_idem]
    apply hset <;> simp [startedTimer, RtTimer.list]
  · rw [hsame]
    exact hset _ rfl rfl rfl

theorem called_callTimeout_self (hmark : s.mark t ≤ s.log.length) :
    (callTimeout cfg s t).called t = s.called t ++ [s.now] := by
  unfold called callTimeout
  simp only [drop_append_of_le_length hmark, filter_append, map_append]
  simp

theorem called_callTimeout_of_ne (hmark : s.mark u ≤ s.log.length) (hne : u ≠ t) :
    (callTimeout cfg s t).called u = s.called u := by
  unfold called callTimeout
  simp only [drop_append_of_le_length hmark, filter_append, map_append]
  simp [hne.symm]

def due (cfg : SkipConfig) (s : ClockState τ) : ℕ :=
  (s.core.bottom cfg .hard).countP fun t => s.timeout t ≤ s.now

namespace ClockInv

section

variable (hinv : ClockInv cfg low s)
include hinv

theorem head_on_time (hlow : low + 1 = s.now)
    (ht : t ∈ s.core.bottom cfg .hard) (hexpired : s.timeout t ≤ s.now) :
    s.now = s.timeout t + if (s.core.timers t).initTick = 0 then 1 else 0 := by
  obtain ⟨startedAt, hpending⟩ := hinv.pending t ht
  have hbefore := hpending.before
  have hvalue : s.timeout t = startedAt +
      ((s.called t).length + 1) * (s.core.timers t).initTick := by
    unfold timeout
    rw [hpending.started, getD_some]
  by_cases hzero : (s.core.timers t).initTick = 0
  · rw [hzero, Nat.mul_zero] at hvalue
    rw [if_pos hzero]
    obtain hahead | ⟨hahead, -⟩ := hpending.ahead
    · lia
    · lia
  · rw [if_neg hzero]
    have hahead := hpending.ahead.resolve_right fun h => hzero h.2
    lia

theorem not_linked_rtTimerRemove (t : τ) : ¬Linked cfg (rtTimerRemove s.core t) t := by
  rintro ⟨k, hk⟩
  exact hinv.rows.not_mem_rtTimerRemove t k hk

theorem callTimeout_of_ne (hne : u ≠ t) : (callTimeout cfg s t).core.timers u = s.core.timers u ∧
      (callTimeout cfg s t).called u = s.called u ∧ (callTimeout cfg s t).timeout u = s.timeout u ∧
      (callTimeout cfg s t).order u = s.order u := by
  have htimer : (callTimeout cfg s t).core.timers u = s.core.timers u :=
    ((hinv.rows.rtTimerRemove t).afterTimeout (hinv.not_linked_rtTimerRemove t)).2.2.1 u hne
  have hcalled : (callTimeout cfg s t).called u = s.called u :=
    called_callTimeout_of_ne (hinv.marks u) hne
  exact ⟨htimer, hcalled, timeout_congr rfl hcalled (by rw [htimer]), update_of_ne hne _ _⟩

theorem ne_head {rest : List τ}
    (hbottom : s.core.bottom cfg .hard = t :: rest) (hu : u ∈ rest) : u ≠ t := by
  have hnodup : (s.core.bottom cfg .hard).Nodup := (hinv.rows.skip .hard).nodup _ (level_sub_lt cfg)
  rw [hbottom, nodup_cons] at hnodup
  rintro rfl
  exact hnodup.1 hu

theorem pairwise_tail {rest : List τ} (hbottom : s.core.bottom cfg .hard = t :: rest) :
    rest.Pairwise (Earlier (callTimeout cfg s t).timeout (callTimeout cfg s t).order) := by
  have hsorted := hinv.sorted
  rw [hbottom, pairwise_cons] at hsorted
  apply hsorted.2.imp_of_mem
  intro x y hx hy hearlier
  obtain ⟨-, -, hxtimeout, hxorder⟩ := hinv.callTimeout_of_ne (hinv.ne_head hbottom hx)
  obtain ⟨-, -, hytimeout, hyorder⟩ := hinv.callTimeout_of_ne (hinv.ne_head hbottom hy)
  unfold Earlier
  rw [hxtimeout, hytimeout, hxorder, hyorder]
  exact hearlier

theorem due_eq_tail {rest : List τ}
    (hbottom : s.core.bottom cfg .hard = t :: rest) (hexpired : s.timeout t ≤ s.now) :
    due cfg s = (rest.countP fun u => (callTimeout cfg s t).timeout u ≤ s.now) + 1 := by
  unfold due
  rw [hbottom, countP_cons_of_pos (by simpa using hexpired)]
  congr 1
  apply countP_congr
  intro u hu
  rw [(hinv.callTimeout_of_ne (hinv.ne_head hbottom hu)).2.2.1]

theorem of_round {rest : List τ} (hlow : low + 1 = s.now)
    (hbottom : s.core.bottom cfg .hard = t :: rest) (hexpired : s.timeout t ≤ s.now)
    (hbottom' : ∀ u ∈ (callTimeout cfg s t).core.bottom cfg .hard, u = t ∨ u ∈ rest)
    (hself : t ∈ (callTimeout cfg s t).core.bottom cfg .hard →
      s.now < (callTimeout cfg s t).timeout t ∧
        ∃ startedAt, Pending (callTimeout cfg s t) low t startedAt)
    (hidle : ((callTimeout cfg s t).core.timers t).activated = false → Idle (callTimeout cfg s t) t)
    (hsorted : ((callTimeout cfg s t).core.bottom cfg .hard).Pairwise
      (Earlier (callTimeout cfg s t).timeout (callTimeout cfg s t).order)) :
    ClockInv cfg low (callTimeout cfg s t) := by
  have hmem : ∀ u ∈ rest, u ∈ s.core.bottom cfg .hard := by
    intro u hu
    rw [hbottom]
    exact mem_cons_of_mem t hu
  have ht : t ∈ s.core.bottom cfg .hard := by simp [hbottom]
  have hne : ∀ u ∈ rest, u ≠ t := fun u hu => hinv.ne_head hbottom hu
  obtain ⟨hrows, hlinked, -, hactivated⟩ :=
    (hinv.rows.rtTimerRemove t).afterTimeout (hinv.not_linked_rtTimerRemove t)
  have hother := fun u (hu : u ≠ t) => (hinv.callTimeout_of_ne hu).1
  have hcalled := fun u (hu : u ≠ t) => (hinv.callTimeout_of_ne hu).2.1
  have htimeout := fun u (hu : u ≠ t) => (hinv.callTimeout_of_ne hu).2.2.1
  have horder := fun u (hu : u ≠ t) => (hinv.callTimeout_of_ne hu).2.2.2
  have hsettings : ∀ u, ((callTimeout cfg s t).core.timers u).initTick =
        (s.core.timers u).initTick ∧
      ((callTimeout cfg s t).core.timers u).periodic = (s.core.timers u).periodic ∧
      ((callTimeout cfg s t).core.timers u).list = (s.core.timers u).list :=
    afterTimeout_settings cfg (rtTimerRemove s.core t) t
  have honTime := hinv.head_on_time hlow ht hexpired
  constructor
  · exact hrows
  · exact afterTimeout_tick.trans hinv.tick
  · intro u
    rw [(hsettings u).1, (hsettings u).2.1]
    exact hinv.ticks u
  · intro u hactive
    have hlink : Linked cfg (callTimeout cfg s t).core u := by
      apply (hlinked u).mpr
      by_cases hut : u = t
      · subst hut
        have hagain := hactivated.symm.trans hactive
        rw [Bool.and_eq_true] at hagain
        exact .inl ⟨rfl, hagain⟩
      · rw [hother u hut] at hactive
        exact .inr ⟨_, hinv.rows.mem_rtTimerRemove.mpr ⟨hut, hinv.linked u hactive⟩⟩
    obtain ⟨k, hk⟩ := hlink
    have hplaced : ((callTimeout cfg s t).core.timers u).list = k := hrows.placed k u hk
    rw [hplaced]
    exact hk
  · intro u hu
    obtain rfl | hrest := hbottom' u hu
    · exact (hself hu).2
    · obtain ⟨startedAt, hpending⟩ := hinv.pending u (hmem u hrest)
      exact ⟨startedAt, hpending.congr (hother u (hne u hrest)) rfl
        (hcalled u (hne u hrest)) le_rfl⟩
  · intro u hlist hinactive
    by_cases hut : u = t
    · subst hut
      exact hidle hinactive
    · rw [(hsettings u).2.2] at hlist
      rw [hother u hut] at hinactive
      exact (hinv.idle u hlist hinactive).congr (hsettings u).2.1 (hsettings u).1 rfl
        (hcalled u hut) le_rfl
  · exact hsorted
  · intro u hu
    change (callTimeout cfg s t).order u < s.starts + 1
    obtain rfl | hrest := hbottom' u hu
    · simp [callTimeout]
    · rw [horder u (hne u hrest)]
      exact (hinv.order u (hmem u hrest)).trans (Nat.lt_succ_self _)
  · intro u
    simp only [callTimeout, length_append]
    exact (hinv.marks u).trans (Nat.le_add_right _ _)
  · intro call hcall
    rw [(hsettings _).1]
    obtain hold | hnew := mem_append.mp hcall
    · exact hinv.timeouts call hold
    · rw [mem_singleton.mp hnew]
      exact honTime
  · apply pairwise_append.mpr
    refine ⟨hinv.inOrder, pairwise_singleton _ _, ?_⟩
    intro call hcall next hnext
    rw [mem_singleton.mp hnext]
    obtain hpast | ⟨hnow, -, hfirst⟩ := hinv.past call hcall
    · exact .inl (by simp only; omega)
    · exact .inr ⟨hnow, hfirst t ht⟩
  · intro call hcall
    obtain hold | hnew := mem_append.mp hcall
    · obtain hpast | ⟨hnow, hle, hfirst⟩ := hinv.past call hold
      · exact .inl hpast
      · refine .inr ⟨hnow, hle, fun u hu => ?_⟩
        obtain rfl | hrest := hbottom' u hu
        · exact .inl (hle.trans_lt (hself hu).1)
        · rw [htimeout u (hne u hrest), horder u (hne u hrest)]
          exact hfirst u (hmem u hrest)
    · rw [mem_singleton.mp hnew]
      refine .inr ⟨rfl, hexpired, fun u hu => ?_⟩
      obtain rfl | hrest := hbottom' u hu
      · exact .inl (hexpired.trans_lt (hself hu).1)
      · rw [htimeout u (hne u hrest), horder u (hne u hrest)]
        have hsorted' := hinv.sorted
        rw [hbottom, pairwise_cons] at hsorted'
        exact hsorted'.1 u hrest

theorem idle_callTimeout {startedAt : ℕ} (hpending : Pending s low t startedAt)
    (honTime : s.now = s.timeout t + if (s.core.timers t).initTick = 0 then 1 else 0)
    (honce : (s.core.timers t).periodic = false) : Idle (callTimeout cfg s t) t := by
  have hcalled : s.called t = [] := by
    by_contra hne
    have hperiodic := hpending.again hne
    rw [honce] at hperiodic
    exact Bool.false_ne_true hperiodic
  have hvalue : s.timeout t = startedAt + (s.core.timers t).initTick := by
    unfold timeout
    rw [hpending.started, hcalled]
    simp
  have hmax : startedAt + max (s.core.timers t).initTick 1 = s.now := by
    by_cases hzero : (s.core.timers t).initTick = 0
    · rw [if_pos hzero] at honTime
      lia
    · rw [if_neg hzero] at honTime
      lia
  have hsettings : ((callTimeout cfg s t).core.timers t).initTick = (s.core.timers t).initTick ∧
      ((callTimeout cfg s t).core.timers t).periodic = (s.core.timers t).periodic ∧
      ((callTimeout cfg s t).core.timers t).list = (s.core.timers t).list :=
    afterTimeout_settings cfg (rtTimerRemove s.core t) t t
  have hstarted : (callTimeout cfg s t).startedAt t = some startedAt := hpending.started
  unfold Idle
  rw [hstarted]
  simp only [hsettings.1, hsettings.2.1, called_callTimeout_self (hinv.marks t), hcalled,
    nil_append, hmax]
  exact ⟨honce, trivial, le_rfl⟩

section

variable (hlow : low + 1 = s.now)
include hlow

theorem pending_callTimeout {startedAt : ℕ}
    (hpending : Pending s low t startedAt) (honTime : s.now = s.timeout t)
    (hperiodic : (s.core.timers t).periodic = true)
    (htimer : (callTimeout cfg s t).core.timers t = startedTimer s.core t) :
    (callTimeout cfg s t).timeout t = s.now + (s.core.timers t).initTick ∧
      Pending (callTimeout cfg s t) low t startedAt := by
  have hcalled : (callTimeout cfg s t).called t = s.called t ++ [s.now] :=
    called_callTimeout_self (hinv.marks t)
  have hstarted : (callTimeout cfg s t).startedAt t = some startedAt := hpending.started
  have hinitTick : ((callTimeout cfg s t).core.timers t).initTick = (s.core.timers t).initTick := by
    rw [htimer]
    rfl
  have hvalue : s.timeout t = startedAt +
      ((s.called t).length + 1) * (s.core.timers t).initTick := by
    unfold timeout
    rw [hpending.started, getD_some]
  have htimeout : (callTimeout cfg s t).timeout t = s.now + (s.core.timers t).initTick := by
    unfold timeout
    rw [hstarted, hcalled, hinitTick, getD_some, length_append,
      length_singleton, honTime, hvalue]
    ring
  refine ⟨htimeout, ?_⟩
  constructor
  · exact hstarted
  · exact hpending.before
  · rw [hcalled, length_append, length_singleton, range_succ, map_append,
      map_singleton, hinitTick, ← hpending.called, ← hvalue, honTime]
  · intro _
    rw [htimer]
    exact hperiodic
  · rw [htimer, htimeout]
    simp only [startedTimer, hinv.tick, add32, Nat.mod_add_mod]
  · rw [htimeout]
    exact .inl (by omega)
  · rw [htimeout, hinitTick]
    exact le_rfl

theorem round_periodic {rest : List τ}
    (hbottom : s.core.bottom cfg .hard = t :: rest) (hexpired : s.timeout t ≤ s.now)
    (hperiodic : (s.core.timers t).periodic = true)
    (hstart : rtTimerStart cfg (setActivated (rtTimerRemove s.core t) t false) t =
      some (afterTimeout cfg (rtTimerRemove s.core t) t)) :
    ClockInv cfg low (HardTimer.callTimeout cfg s t) ∧
      due cfg (HardTimer.callTimeout cfg s t) + 1 = due cfg s := by
  have ht : t ∈ s.core.bottom cfg .hard := by simp [hbottom]
  have hlist : (s.core.timers t).list = .hard := hinv.rows.placed .hard t ht
  have hpositive := (hinv.ticks t).2 hperiodic
  obtain ⟨startedAt, hpending⟩ := hinv.pending t ht
  have honTime := hinv.head_on_time hlow ht hexpired
  rw [if_neg hpositive.ne', Nat.add_zero] at honTime
  have htimers := (rtTimerStart_eq_some hstart).2.2.1
  have htimer : (callTimeout cfg s t).core.timers t = startedTimer s.core t := by
    change (afterTimeout cfg (rtTimerRemove s.core t) t).timers t = _
    rw [htimers, update_self]
    simp [startedTimer]
  obtain ⟨htimeout, hagain⟩ := hinv.pending_callTimeout hlow hpending honTime hperiodic htimer
  have hlater : s.now < (callTimeout cfg s t).timeout t := by lia
  have hrows := (hinv.rows.rtTimerRemove t).setActivated false (hinv.not_linked_rtTimerRemove t)
  have hlist' : ((setActivated (rtTimerRemove s.core t) t false).timers t).list = .hard := by
    rw [setActivated_timers, update_self]
    exact hlist
  have hrest : (setActivated (rtTimerRemove s.core t) t false).bottom cfg .hard = rest := by
    change (s.core.bottom cfg .hard).erase t = rest
    rw [hbottom, erase_cons_head]
  have hperm : ((callTimeout cfg s t).core.bottom cfg .hard).Perm (t :: rest) := by
    have hstarted := hrows.bottom_rtTimerStart_perm hstart
    rw [hlist', hrest] at hstarted
    exact hstarted
  have hbottom' : ∀ u ∈ (callTimeout cfg s t).core.bottom cfg .hard, u = t ∨ u ∈ rest :=
    fun u hu => mem_cons.mp (hperm.mem_iff.mp hu)
  have hsorted := hinv.sorted
  rw [hbottom, pairwise_cons] at hsorted
  refine ⟨hinv.of_round hlow hbottom hexpired hbottom' (fun _ => ⟨hlater, startedAt, hagain⟩)
    ?_ ?_, ?_⟩
  · intro hinactive
    rw [htimer] at hinactive
    cases hinactive
  · apply pairwise_started s.now hrows hstart hlist'
    · rw [hrest]
      exact hinv.pairwise_tail hbottom
    · intro u hu
      obtain rfl | hmem := hbottom' u hu
      · have hhalf := (hinv.ticks u).1
        exact ⟨hagain.timeoutTick, hlater.le, by lia⟩
      · have hsame := hinv.callTimeout_of_ne (hinv.ne_head hbottom hmem)
        obtain ⟨first, hwaits⟩ := hinv.pending u (by simp [hbottom, hmem])
        have hhalf := (hinv.ticks u).1
        have hnear := hwaits.near
        have hle : s.timeout t ≤ s.timeout u := by
          obtain hless | ⟨heq, -⟩ := hsorted.1 u hmem
          · exact hless.le
          · exact heq.le
        refine ⟨?_, ?_, ?_⟩
        · rw [hsame.2.2.1, ← hwaits.timeoutTick]
          exact congrArg RtTimer.timeoutTick hsame.1
        · rw [hsame.2.2.1]
          lia
        · rw [hsame.2.2.1]
          lia
    · rw [hrest]
      intro u hu
      rw [(hinv.callTimeout_of_ne (hinv.ne_head hbottom hu)).2.2.2]
      have horder := hinv.order u (by simp [hbottom, hu])
      simpa [callTimeout] using horder
  · rw [hinv.due_eq_tail hbottom hexpired]
    unfold due
    rw [hperm.countP_eq, countP_cons_of_neg]
    · rfl
    · rw [decide_eq_true_eq]
      exact hlater.not_ge

theorem round_once {rest : List τ}
    (hbottom : s.core.bottom cfg .hard = t :: rest) (hexpired : s.timeout t ≤ s.now)
    (honce : (s.core.timers t).periodic = false)
    (hstopped : afterTimeout cfg (rtTimerRemove s.core t) t =
      setActivated (rtTimerRemove s.core t) t false) :
    ClockInv cfg low (HardTimer.callTimeout cfg s t) ∧
      due cfg (HardTimer.callTimeout cfg s t) + 1 = due cfg s := by
  have ht : t ∈ s.core.bottom cfg .hard := by simp [hbottom]
  obtain ⟨startedAt, hpending⟩ := hinv.pending t ht
  have honTime := hinv.head_on_time hlow ht hexpired
  have hrest : (callTimeout cfg s t).core.bottom cfg .hard = rest := by
    change (afterTimeout cfg (rtTimerRemove s.core t) t).bottom cfg .hard = rest
    rw [hstopped]
    change (s.core.bottom cfg .hard).erase t = rest
    rw [hbottom, erase_cons_head]
  refine ⟨hinv.of_round hlow hbottom hexpired ?_ ?_ ?_ ?_, ?_⟩
  · rw [hrest]
    exact fun u hu => .inr hu
  · rw [hrest]
    exact fun hu => absurd rfl (hinv.ne_head hbottom hu)
  · exact fun _ => hinv.idle_callTimeout hpending honTime honce
  · rw [hrest]
    exact hinv.pairwise_tail hbottom
  · rw [hinv.due_eq_tail hbottom hexpired]
    unfold due
    rw [hrest]
    rfl

theorem callTimeout (hhead : expiredHead cfg s.core s.core.tick = some t) :
    ClockInv cfg low (HardTimer.callTimeout cfg s t) ∧
      due cfg (HardTimer.callTimeout cfg s t) + 1 = due cfg s := by
  obtain ⟨rest, hbottom, hexpired⟩ := exists_of_expiredHead hhead
  have ht : t ∈ s.core.bottom cfg .hard := by simp [hbottom]
  rw [hinv.expired_iff hlow ht] at hexpired
  obtain ⟨hperiodic, -, hstart⟩ | ⟨hnot, hstopped⟩ :=
    afterTimeout_cases cfg (rtTimerRemove s.core t) t
  · exact hinv.round_periodic hlow hbottom hexpired hperiodic hstart
  · have hactive := hinv.rows.active .hard t ht
    rw [rtTimerRemove_timers, hactive, Bool.and_true] at hnot
    exact hinv.round_once hlow hbottom hexpired hnot hstopped

end

end

/-! ## Whole checks -/

theorem check {fuel : ℕ} (hinv : ClockInv cfg low s) (hlow : low + 1 = s.now)
    (hcheck : rtTimerCheck cfg fuel s.core.tick s = some s') : ClockInv cfg s'.now s' := by
  induction fuel generalizing s with
  | zero => exact absurd hcheck (by simp [rtTimerCheck])
  | succ fuel ih =>
    rw [rtTimerCheck] at hcheck
    cases hhead : expiredHead cfg s.core s.core.tick with
    | none =>
      rw [hhead, some.injEq] at hcheck
      exact hcheck ▸ hinv.finish hlow hhead
    | some t =>
      rw [hhead] at hcheck
      exact ih (hinv.callTimeout hlow hhead).1 hlow hcheck

theorem exists_check {fuel : ℕ} (hinv : ClockInv cfg low s) (hlow : low + 1 = s.now)
    (hfuel : due cfg s = fuel) : ∃ s', rtTimerCheck cfg (fuel + 1) s.core.tick s = some s' := by
  induction fuel generalizing s with
  | zero =>
    cases hhead : expiredHead cfg s.core s.core.tick with
    | none => exact ⟨s, by rw [rtTimerCheck, hhead]⟩
    | some t =>
      have hless := (hinv.callTimeout hlow hhead).2
      omega
  | succ fuel ih =>
    cases hhead : expiredHead cfg s.core s.core.tick with
    | none => exact ⟨s, by rw [rtTimerCheck, hhead]⟩
    | some t =>
      obtain ⟨hinv', hless⟩ := hinv.callTimeout hlow hhead
      obtain ⟨s', hs'⟩ := ih hinv' hlow (by omega)
      exact ⟨s', by rw [rtTimerCheck, hhead]; exact hs'⟩

end ClockInv

end RtThread.Timer.HardTimer
