import RtThread.MemheapPools
import RtThread.MemheapSizes

/-!
# Runs of the system heap over several memory heaps

A run starts with `rt_system_heap_init`.  Further heaps are registered, blocks
are allocated, resized and released, and the application writes to its blocks;
`rt_calloc` is `rt_malloc` with such writes.  Next to the live pointers the state carries the pointers which `rt_realloc` has
replaced without giving their blocks back.
-/

namespace RtThread.MemHeap

open Function List Word

variable {a : AlignSize}

structure PoolsState (a : AlignSize) where
  state : State
  heaps : List (Area a)
  live : List ℕ
  lost : List ℕ

namespace PoolsState

variable (s : PoolsState a)

def container : List ℕ := s.heaps.map Area.heap

def InUse (i : ℕ) : Prop := i + memheapSize a ∈ s.live ∨ i + memheapSize a ∈ s.lost

def dropped (ptr : ℕ) : List ℕ := s.live.filter (· ≠ ptr)

def failsAtHome (ptr newsize : ℕ) : Bool :=
  (rtMemheapRealloc a s.state (get s.state.memory .poolPtr (ptr - memheapSize a)) ptr
    newsize).map Prod.snd == some rtNull

def resized (ptr newsize : ℕ) (result : State × ℕ) : PoolsState a :=
  if ptr = rtNull then { s with state := result.1, live := grant result.2 s.live }
  else if newsize = 0 then { s with state := result.1, live := s.dropped ptr }
  else if result.2 = rtNull then { s with state := result.1 }
  else
    { s with
      state := result.1
      live := result.2 :: s.dropped ptr
      lost := if s.failsAtHome ptr newsize then ptr :: s.lost else s.lost }

end PoolsState

inductive PoolsCall (a : AlignSize) where
  | register (area : Area a)
  | malloc (size : UInt32)
  | realloc (ptr : ℕ) (newsize : UInt32)
  | free (ptr : ℕ)
  | write (addr : ℕ) (value : UInt8)

namespace PoolsCall

/-- Registered heaps lie apart from the others, pointers are live or `RT_NULL`, and the
application writes to the data of live pointers. -/
def Legal (s : PoolsState a) : PoolsCall a → Prop
  | .register area => ∀ B ∈ s.heaps, area.Apart B
  | .malloc _ => True
  | .realloc ptr _ => ptr = rtNull ∨ ptr ∈ s.live
  | .free ptr => ptr = rtNull ∨ ptr ∈ s.live
  | .write addr _ =>
    ∃ ptr ∈ s.live, ptr ≤ addr ∧ addr < get s.state.memory .next (ptr - memheapSize a)

def Checked (s : PoolsState a) : PoolsCall a → Prop
  | .realloc ptr newsize => ptr ∈ s.live → ¬RoundingWraps a newsize.toNat ∧
      ¬WrappedGrowth a s.state.memory (ptr - memheapSize a) (itemSize a newsize.toNat)
  | _ => True

end PoolsCall

def executeOn (system : Area a) (s : PoolsState a) : PoolsCall a → Option (PoolsState a)
  | .register area => some
      { s with
        state := rtMemheapInit a s.state area.heap area.head area.start area.size
        heaps := area :: s.heaps }
  | .malloc size =>
    (rtMalloc a s.state system.heap s.container size.toNat).map fun result =>
      { s with state := result.1, live := grant result.2 s.live }
  | .realloc ptr newsize =>
    (rtRealloc a s.state system.heap s.container ptr newsize.toNat).map fun result =>
      s.resized ptr newsize.toNat result
  | .free ptr => some { s with state := rtMemheapFree a s.state ptr, live := s.dropped ptr }
  | .write addr value => some
      { s with
        state := { s.state with memory := update s.state.memory addr value } }

def poolsSystem (system : Area a) : TransitionSystem (PoolsState a) (PoolsCall a) where
  init s := ∃ before : State,
      s.state = rtMemheapInit a before system.heap system.head system.start system.size ∧
        s.heaps = [system] ∧ s.live = [] ∧ s.lost = []
  step s call s' := call.Legal s ∧ executeOn system s call = some s'

structure Consistent (system : Area a) (s : PoolsState a) : Prop where
  held : Held s.heaps s.state s.InUse
  system_mem : system ∈ s.heaps
  live_ge : ∀ p ∈ s.live, memheapSize a ≤ p
  not_lost : ∀ p ∈ s.live, p ∉ s.lost

variable {system : Area a} {s s' : PoolsState a} {x y p n : ℕ}

namespace Consistent

theorem exists_item (hcons : Consistent system s) (hp : p ∈ s.live) :
    ∃ x, p = x + memheapSize a ∧ s.InUse x := by
  have hge := hcons.live_ge p hp
  refine ⟨p - memheapSize a, by omega, .inl ?_⟩
  rw [Nat.sub_add_cancel hge]
  exact hp

theorem null_not_mem (hcons : Consistent system s) : rtNull ∉ s.live := by
  intro hmem
  have hsize := twentyFour_le_memheapSize a
  have hge := hcons.live_ge rtNull hmem
  unfold rtNull at hge
  omega

theorem grants {state : State} (hcons : Consistent system s) (hfresh : ¬s.InUse y)
    (hheld : Held s.heaps state fun i => i = y ∨ s.InUse i) :
    Consistent system { s with state := state, live := grant (y + memheapSize a) s.live } := by
  have hgrant : grant (y + memheapSize a) s.live = (y + memheapSize a) :: s.live :=
    if_neg (add_memheapSize_ne_null a y)
  rw [hgrant]
  constructor
  · apply hheld.congr_used
    intro i
    unfold PoolsState.InUse
    rw [mem_cons, Nat.add_right_cancel_iff, or_assoc]
  · exact hcons.system_mem
  · intro p hp
    rcases mem_cons.mp hp with hp | hp
    · omega
    · exact hcons.live_ge p hp
  · intro p hp
    rcases mem_cons.mp hp with rfl | hp
    · exact fun hlost => hfresh (.inr hlost)
    · exact hcons.not_lost p hp

theorem mem_dropped {q : ℕ} : q ∈ s.dropped p ↔ q ∈ s.live ∧ q ≠ p := by
  simp [PoolsState.dropped]

section

variable (hcons : Consistent system s)
include hcons

section

variable (hx : x + memheapSize a ∈ s.live)
include hx

theorem inUse_dropped (i : ℕ) :
    (i + memheapSize a ∈ s.dropped (x + memheapSize a) ∨ i + memheapSize a ∈ s.lost) ↔
      s.InUse i ∧ i ≠ x := by
  have hlost := hcons.not_lost _ hx
  rw [mem_dropped]
  constructor
  · rintro (⟨hi, hne⟩ | hi)
    · exact ⟨.inl hi, fun heq => hne (by rw [heq])⟩
    · exact ⟨.inr hi, fun heq => hlost (heq ▸ hi)⟩
  · rintro ⟨hi | hi, hne⟩
    · exact .inl ⟨hi, fun heq => hne (Nat.add_right_cancel heq)⟩
    · exact .inr hi

theorem releases {state : State}
    (hheld : Held s.heaps state fun i => s.InUse i ∧ i ≠ x) :
    Consistent system { s with state := state, live := s.dropped (x + memheapSize a) } where
  held := hheld.congr_used fun i => (hcons.inUse_dropped hx i).symm
  system_mem := hcons.system_mem
  live_ge p hp := hcons.live_ge p (mem_dropped.mp hp).1
  not_lost p hp := hcons.not_lost p (mem_dropped.mp hp).1

theorem moves {state : State}
    (hy : y = x ∨ ¬s.InUse y) (hheld : Held s.heaps state fun i => i = y ∨ (s.InUse i ∧ i ≠ x)) :
    Consistent system
      { s with
        state := state
        live := (y + memheapSize a) :: s.dropped (x + memheapSize a) } := by
  constructor
  · apply hheld.congr_used
    intro i
    rw [← hcons.inUse_dropped hx i]
    unfold PoolsState.InUse
    rw [mem_cons, Nat.add_right_cancel_iff, or_assoc]
  · exact hcons.system_mem
  · intro p hp
    rcases mem_cons.mp hp with hp | hp
    · omega
    · exact hcons.live_ge p (mem_dropped.mp hp).1
  · intro p hp
    rcases mem_cons.mp hp with rfl | hp
    · rcases hy with rfl | hy
      · exact hcons.not_lost _ hx
      · exact fun hlost => hy (.inr hlost)
    · exact hcons.not_lost p (mem_dropped.mp hp).1

theorem abandons {state : State}
    (hfresh : ¬s.InUse y) (hheld : Held s.heaps state fun i => i = y ∨ s.InUse i) :
    Consistent system
      { s with
        state := state
        live := (y + memheapSize a) :: s.dropped (x + memheapSize a)
        lost := (x + memheapSize a) :: s.lost } := by
  constructor
  · apply hheld.congr_used
    intro i
    have hdrop := hcons.inUse_dropped hx i
    unfold PoolsState.InUse at hdrop ⊢
    rw [mem_cons, mem_cons, Nat.add_right_cancel_iff, Nat.add_right_cancel_iff]
    by_cases hix : i = x
    · simp [hix, hx]
    · tauto
  · exact hcons.system_mem
  · intro p hp
    rcases mem_cons.mp hp with hp | hp
    · omega
    · exact hcons.live_ge p (mem_dropped.mp hp).1
  · intro p hp hlost
    rcases mem_cons.mp hp with rfl | hp
    · rcases mem_cons.mp hlost with heq | hlost
      · exact hfresh (.inl (heq ▸ hx))
      · exact hfresh (.inr hlost)
    · rcases mem_cons.mp hlost with heq | hlost
      · exact (mem_dropped.mp hp).2 heq
      · exact hcons.not_lost p (mem_dropped.mp hp).1 hlost

end

theorem of_malloc {result : State × ℕ}
    (hresult : rtMalloc a s.state system.heap s.container n = some result) :
    Consistent system { s with state := result.1, live := grant result.2 s.live } := by
  rcases hcons.held.rtMalloc hcons.system_mem n with ⟨result', hresult', hcases⟩
  have heq := Option.some.inj (hresult.symm.trans hresult')
  subst heq
  rcases hcases with ⟨hnull, -⟩ | ⟨-, y, hserved⟩
  · rw [hnull]
    exact hcons
  · rw [hserved.ptr]
    exact hcons.grants hserved.fresh hserved.held

theorem of_realloc {result : State × ℕ}
    (hlegal : p = rtNull ∨ p ∈ s.live) (hchecked : p ∈ s.live → ¬RoundingWraps a n ∧
      ¬WrappedGrowth a s.state.memory (p - memheapSize a) (itemSize a n))
    (hresult : rtRealloc a s.state system.heap s.container p n = some result) :
    Consistent system (s.resized p n result) := by
  unfold PoolsState.resized
  by_cases hnull : p = rtNull
  · unfold rtRealloc at hresult
    rw [if_pos hnull] at hresult ⊢
    exact hcons.of_malloc hresult
  · have hp := hlegal.resolve_left hnull
    rw [if_neg hnull]
    rcases hcons.exists_item hp with ⟨x, rfl, hx⟩
    rcases hcons.held.owner x hx with ⟨A, hA, hAx⟩
    have hholds := hcons.held.holds A hA
    by_cases hzero : n = 0
    · subst hzero
      have hrelease : rtMemheapRealloc a s.state (get s.state.memory .poolPtr x)
          (x + memheapSize a) 0 = some (rtMemheapFree a s.state (x + memheapSize a), rtNull) :=
        if_pos rfl
      unfold rtRealloc at hresult
      simp only [if_neg hnull, Nat.add_sub_cancel, hrelease, ne_eq, not_true_eq_false, and_false,
        if_false, Option.some.injEq] at hresult
      rw [if_pos rfl, ← hresult]
      exact hcons.releases hp (hcons.held.rtMemheapFree hx).1
    · rw [if_neg hzero]
      rcases hchecked hp with ⟨hfits, hgrowth⟩
      rw [Nat.add_sub_cancel] at hgrowth
      rcases hcons.held.rtRealloc hcons.system_mem hx hA hAx hzero (le_itemSize hfits) hgrowth
        with ⟨result', hresult', hcases⟩
      have heq := Option.some.inj (hresult.symm.trans hresult')
      subst heq
      have hhome : s.failsAtHome (x + memheapSize a) n = true ↔ OwnerFails A s.state x n := by
        rcases hholds.rtMemheapRealloc ⟨hx, hAx⟩ hgrowth with ⟨first, hfirst, -⟩
        rw [← hholds.ownerFails_iff hzero hfirst]
        unfold PoolsState.failsAtHome
        rw [Nat.add_sub_cancel, hholds.poolPtr_eq ⟨hx, hAx⟩, hfirst]
        simp
      rcases hcases with ⟨hne, hkeeps, hmoved⟩ | ⟨hne, hfails, -, hleft⟩ | ⟨hfailed, -⟩
      · rw [if_neg hne, if_neg fun hlost => hkeeps (hhome.mp hlost)]
        rcases hmoved.ptr with ⟨y, hy, hplace⟩
        have hheld := hmoved.held
        rw [hy] at hheld ⊢
        apply hcons.moves hp hplace
        apply hheld.congr_used
        intro i
        rw [Nat.add_right_cancel_iff]
      · rw [if_neg hne, if_pos (hhome.mpr hfails)]
        rcases hleft.ptr with ⟨y, hy, hfresh⟩
        have hheld := hleft.held
        rw [hy] at hheld ⊢
        apply hcons.abandons hp hfresh
        apply hheld.congr_used
        intro i
        rw [Nat.add_right_cancel_iff]
      · rw [hfailed, if_pos rfl]
        exact hcons

theorem of_write {addr : ℕ} (hp : p ∈ s.live) (hlow : p ≤ addr)
    (hhigh : addr < get s.state.memory .next (p - memheapSize a)) (value : UInt8) :
    Consistent system
      { s with
        state := { s.state with memory := update s.state.memory addr value } } := by
  rcases hcons.exists_item hp with ⟨x, rfl, hx⟩
  rw [Nat.add_sub_cancel] at hhigh
  have hwithin : ∀ b, b < x + memheapSize a ∨ get s.state.memory .next x ≤ b →
      update s.state.memory addr value b = s.state.memory b := by
    intro b hb
    have hne : b ≠ addr := by omega
    exact update_of_ne hne value s.state.memory
  exact {
    held := (hcons.held.write_within hx hwithin).1
    system_mem := hcons.system_mem
    live_ge := hcons.live_ge
    not_lost := hcons.not_lost }

theorem execute {call : PoolsCall a} (hlegal : call.Legal s)
    (hchecked : call.Checked s) (hexecute : executeOn system s call = some s') :
    Consistent system s' := by
  cases call with
  | register area =>
    rw [← Option.some.inj hexecute]
    exact {
      held := (hcons.held.register hlegal).1
      system_mem := mem_cons_of_mem area hcons.system_mem
      live_ge := hcons.live_ge
      not_lost := hcons.not_lost }
  | malloc size =>
    rcases Option.map_eq_some_iff.mp hexecute with ⟨result, hresult, rfl⟩
    exact hcons.of_malloc hresult
  | realloc ptr newsize =>
    rcases Option.map_eq_some_iff.mp hexecute with ⟨result, hresult, rfl⟩
    exact hcons.of_realloc hlegal hchecked hresult
  | free ptr =>
    rw [← Option.some.inj hexecute]
    by_cases hnull : ptr = rtNull
    · have hfree : rtMemheapFree a s.state ptr = s.state := if_pos hnull
      have hkept : s.dropped ptr = s.live := by
        apply filter_eq_self.mpr
        intro q hq
        have hne : q ≠ ptr := fun heq => hcons.null_not_mem (hnull ▸ heq ▸ hq)
        simp [hne]
      rw [hfree, hkept]
      exact hcons
    · have hp := Or.resolve_left hlegal hnull
      rcases hcons.exists_item hp with ⟨x, rfl, hx⟩
      exact hcons.releases hp (hcons.held.rtMemheapFree hx).1
  | write addr value =>
    rcases hlegal with ⟨ptr, hp, hlow, hhigh⟩
    rw [← Option.some.inj hexecute]
    exact hcons.of_write hp hlow hhigh value

end

theorem of_init (hinit : (poolsSystem system).init s) : Consistent system s := by
  rcases hinit with ⟨start, hstate, hheaps, hlive, hlost⟩
  have hused : ∀ i, ¬s.InUse i := by
    intro i
    unfold PoolsState.InUse
    rw [hlive, hlost]
    simp
  constructor
  · rw [hheaps, hstate]
    constructor
    · exact pairwise_singleton _ _
    · intro A hA
      rw [mem_singleton.mp hA]
      apply (rtMemheapInit_holds system start).congr_used
      intro i
      simp [hused i]
    · intro i hi
      exact absurd hi (hused i)
  · rw [hheaps]
    exact mem_singleton_self system
  · rw [hlive]
    simp
  · rw [hlive]
    simp

theorem of_reachable (hreach : (poolsSystem system).Reachable (fun s call => call.Checked s) s) :
    Consistent system s := by
  apply hreach.invariant (P := fun s => Consistent system s)
  · intro s hinit
    exact of_init hinit
  · intro s call s' hcons hchecked hstep
    exact hcons.execute hstep.1 hchecked hstep.2

end Consistent

/-- A pointer other than `p` takes the place of `p`, whose block is free then; and a failing call
changes nothing. -/
def BlocksKept (s : PoolsState a) (p n : ℕ) (result : State × ℕ) : Prop :=
  (result.2 ≠ rtNull → result.2 ≠ p → Moved s.heaps s.state s.InUse (p - memheapSize a) n result) ∧
  (result.2 = rtNull → Held s.heaps result.1 s.InUse ∧
      ∀ j, s.InUse j → Kept a s.state.memory result.1.memory j)

/-- The block's own heap cannot serve `n` bytes and another one can. -/
def MovesAcross (s : PoolsState a) (A : Area a) (p n : ℕ) : Prop :=
  OwnerFails A s.state (p - memheapSize a) n ∧ ∃ B ∈ s.heaps, Serviceable B s.state n

theorem Consistent.blocksKept_iff (hcons : Consistent system s) (hp : p ∈ s.live) (hpos : n ≠ 0)
    (hfits : ¬RoundingWraps a n) : ∃ A ∈ s.heaps, A.Contains (p - memheapSize a) ∧
      ∃ result, rtRealloc a s.state system.heap s.container p n = some result ∧
        (BlocksKept s p n result ↔ ¬MovesAcross s A p n) := by
  rcases hcons.exists_item hp with ⟨x, rfl, hx⟩
  rcases hcons.held.owner x hx with ⟨A, hA, hAx⟩
  have hptr := add_memheapSize_ne_null a x
  unfold BlocksKept MovesAcross
  rw [Nat.add_sub_cancel]
  refine ⟨A, hA, hAx, ?_⟩
  by_cases hwrapped : WrappedGrowth a s.state.memory x (itemSize a n)
  · -- the item grows in place, and the pointer stays the same
    have hgrown := hwrapped.2
    have hlarge : itemSize a n > memitemSize a s.state.memory x := by
      have hitem := ((hcons.held.holds A hA).memitemSize_eq ⟨hx, hAx⟩).2
      have hsize := twentyFour_le_memheapSize a
      have hle := hwrapped.1
      unfold miniAlloc at hle
      omega
    generalize hgrowth : growItem a s.state (get s.state.memory .poolPtr x) x
      (memitemSize a s.state.memory x) (itemSize a n) = grown
    have hgrow : rtMemheapRealloc a s.state (get s.state.memory .poolPtr x)
        (x + memheapSize a) n = some (grown, x + memheapSize a) := by
      rw [← hgrowth]
      unfold rtMemheapRealloc
      simp only [if_neg hpos, if_neg hptr, Nat.add_sub_cancel, if_pos hlarge, Bool.not_eq_true']
      exact if_pos hgrown
    refine ⟨(grown, x + memheapSize a), ?_, ?_⟩
    · unfold rtRealloc
      simp only [if_neg hptr, Nat.add_sub_cancel, hgrow]
      exact if_neg fun hboth => hptr hboth.1
    · exact iff_of_true ⟨fun _ hne => absurd rfl hne, fun hnull => absurd hnull hptr⟩
        fun hacross => hacross.1.2.1 hgrown
  · rcases hcons.held.rtRealloc hcons.system_mem hx hA hAx hpos (le_itemSize hfits) hwrapped
      with ⟨result, hresult, hcases⟩
    refine ⟨result, hresult, ?_⟩
    rcases hcases with ⟨hne, hkeeps, hmoved⟩ | ⟨hne, hfails, hserves, hleft⟩ | ⟨hfailed, hnone⟩
    · exact iff_of_true ⟨fun _ _ => hmoved, fun hnull => absurd hnull hne⟩
        fun hacross => hkeeps hacross.1
    · apply iff_of_false _ (not_not_intro ⟨hfails, hserves⟩)
      rintro ⟨hmoves, -⟩
      rcases hleft.ptr with ⟨y, hy, hfresh⟩
      have hother : result.2 ≠ x + memheapSize a := by
        rw [hy]
        exact fun heq => hfresh (Nat.add_right_cancel heq ▸ hx)
      have hmoved := hmoves hne hother
      rcases (hleft.held.unique hmoved.held x).mp (.inr hx) with heq | hgone
      · exact hother heq.symm
      · exact hgone.2 rfl
    · apply iff_of_true
      · rw [hfailed]
        exact ⟨fun hne => absurd rfl hne,
          fun _ => ⟨hcons.held, fun j _ => Kept.refl a s.state.memory j⟩⟩
      · rintro ⟨-, B, hB, hserves⟩
        exact hnone B hB hserves

/-- In every run whose reallocations do not wrap, `rt_realloc` gives the old block back, keeps
its data and leaves the other blocks alone just in case the block does not move to another
heap. -/
theorem realloc_keeps_blocks_iff (system : Area a)
    (hreach : (poolsSystem system).Reachable (fun s call => call.Checked s) s) :
    ∀ p ∈ s.live, ∀ n : UInt32, 1 ≤ n.toNat → ¬RoundingWraps a n.toNat →
      ∃ A ∈ s.heaps, A.Contains (p - memheapSize a) ∧
        ∃ result, rtRealloc a s.state system.heap s.container p n.toNat = some result ∧
          (BlocksKept s p n.toNat result ↔ ¬MovesAcross s A p n.toNat) := by
  intro p hp n hpos hfits
  exact (Consistent.of_reachable hreach).blocksKept_iff hp (by omega) hfits

section Sample

instance (A B : Area a) : Decidable (A.Apart B) :=
  decidable_of_iff (A.heap ≠ B.heap ∧ (A.head + 24 ≤ B.head ∨ B.head + 24 ≤ A.head) ∧
      (A.head + 24 ≤ B.start ∨ B.start + B.size ≤ A.head) ∧
      (B.head + 24 ≤ A.start ∨ A.start + A.size ≤ B.head) ∧
      (A.start + A.size ≤ B.start ∨ B.start + B.size ≤ A.start))
    ⟨fun ⟨h₁, h₂, h₃, h₄, h₅⟩ => ⟨h₁, h₂, h₃, h₄, h₅⟩,
      fun ⟨h₁, h₂, h₃, h₄, h₅⟩ => ⟨h₁, h₂, h₃, h₄, h₅⟩⟩

instance (s : PoolsState a) (call : PoolsCall a) : Decidable (call.Legal s) :=
  match call with
  | .register _ => inferInstanceAs (Decidable (∀ B ∈ _, _))
  | .malloc _ => inferInstanceAs (Decidable True)
  | .realloc _ _ => inferInstanceAs (Decidable (_ ∨ _))
  | .free _ => inferInstanceAs (Decidable (_ ∨ _))
  | .write addr _ => inferInstanceAs (Decidable (∃ ptr ∈ s.live,
      ptr ≤ addr ∧ addr < get s.state.memory .next (ptr - memheapSize a)))

instance (a : AlignSize) (n : ℕ) : Decidable (RoundingWraps a n) :=
  inferInstanceAs (Decidable (_ ≤ _))

instance (s : PoolsState a) (call : PoolsCall a) : Decidable (call.Checked s) :=
  match call with
  | .register _ => inferInstanceAs (Decidable True)
  | .malloc _ => inferInstanceAs (Decidable True)
  | .realloc _ _ => inferInstanceAs (Decidable (_ → _))
  | .free _ => inferInstanceAs (Decidable True)
  | .write _ _ => inferInstanceAs (Decidable True)

def poolsInit : PoolsState wordAlign where
  state := sampleInit.state
  heaps := [sampleArea]
  live := []
  lost := []

def poolsRun (calls : List (PoolsCall wordAlign)) : Option (PoolsState wordAlign) :=
  calls.foldlM
    (fun s call => if call.Legal s ∧ call.Checked s then executeOn sampleArea s call else none)
    poolsInit

theorem reachable_poolsRun {calls : List (PoolsCall wordAlign)} {s : PoolsState wordAlign}
    (hrun : poolsRun calls = some s) :
    (poolsSystem sampleArea).Reachable (fun s call => call.Checked s) s := by
  have hstart : (poolsSystem sampleArea).init poolsInit := ⟨_, rfl, rfl, rfl, rfl⟩
  apply TransitionSystem.Reachable.foldlM _ (.start hstart) hrun
  intro s call s' hstep
  split_ifs at hstep with hlegal
  exact ⟨hlegal.2, hlegal.1, hstep⟩

end Sample

theorem realloc_keeps_blocks_sample :
    ∃ s, (poolsSystem sampleArea).Reachable (fun s call => call.Checked s) s ∧
      s.live = [0x20000018] ∧ ∃ A ∈ s.heaps, A.Contains 0x20000000 ∧
        ∃ result, rtRealloc wordAlign s.state sampleArea.heap s.container 0x20000018 400 =
          some result ∧ (BlocksKept s 0x20000018 400 result ↔ ¬MovesAcross s A 0x20000018 400) := by
  have hrun : (poolsRun [.register otherArea, .malloc 100]).map PoolsState.live =
      some [0x20000018] := by
    decide +kernel
  rcases Option.map_eq_some_iff.mp hrun with ⟨s, hs, hlive⟩
  have hreach := reachable_poolsRun hs
  refine ⟨s, hreach, hlive, ?_⟩
  exact realloc_keeps_blocks_iff sampleArea hreach 0x20000018
    (by rw [hlive]; exact mem_singleton_self _) 400 (by decide) (by decide)

/-- `rt_realloc` copies the block to a second heap and does not free it. -/
theorem not_blocksKept_across :
    ∃ s, (poolsSystem sampleArea).Reachable (fun s call => call.Checked s) s ∧
      s.live = [0x20000094, 0x20000018] ∧
      ∃ result, rtRealloc wordAlign s.state sampleArea.heap s.container 0x20000018 400 =
          some result ∧ result.2 = 0x20001018 ∧ ¬BlocksKept s 0x20000018 400 result := by
  have hrun : (poolsRun [.register otherArea, .malloc 100, .malloc 800]).map
      (fun s => (s.live,
        (rtRealloc wordAlign s.state sampleArea.heap s.container 0x20000018 400).map Prod.snd,
        (rtMemheapRealloc wordAlign s.state sampleArea.heap 0x20000018 400).map Prod.snd)) =
      some ([0x20000094, 0x20000018], some 0x20001018, some rtNull) := by
    decide +kernel
  rcases Option.map_eq_some_iff.mp hrun with ⟨s, hs, hview⟩
  rw [Prod.mk.injEq, Prod.mk.injEq] at hview
  have hreach := reachable_poolsRun hs
  have hcons := Consistent.of_reachable hreach
  refine ⟨s, hreach, hview.1, ?_⟩
  have hx : s.InUse 0x20000000 := by
    apply Or.inl
    rw [hview.1]
    decide
  have hcontains : sampleArea.Contains 0x20000000 := by
    unfold Area.Contains
    decide
  have hgrowth : ¬WrappedGrowth wordAlign s.state.memory 0x20000000 (itemSize wordAlign 400) :=
    fun hwrapped => absurd hwrapped.1 (by decide)
  rcases hcons.held.rtRealloc hcons.system_mem hx hcons.system_mem hcontains (n := 400)
    (by decide) (by decide) hgrowth with ⟨result, hresult, hcases⟩
  have hq : result.2 = 0x20001018 := by
    have hsnd := hview.2.1
    rw [show rtRealloc wordAlign s.state sampleArea.heap s.container 0x20000018 400 =
      some result from hresult] at hsnd
    exact Option.some.inj hsnd
  refine ⟨result, hresult, hq, ?_⟩
  rintro ⟨hmoves, -⟩
  have hmoved := hmoves (by rw [hq]; decide) (by rw [hq]; decide)
  rcases hcases with ⟨-, hkeeps, -⟩ | ⟨-, -, -, hleft⟩ | ⟨hfailed, -⟩
  · rcases Option.map_eq_some_iff.mp hview.2.2 with ⟨first, hfirst, hnull⟩
    have hholds := hcons.held.holds sampleArea hcons.system_mem
    exact hkeeps ((hholds.ownerFails_iff (by decide) hfirst).mp hnull)
  · rcases (hleft.held.unique hmoved.held 0x20000000).mp (.inr hx) with heq | hgone
    · rw [hq] at heq
      cases heq
    · exact hgone.2 rfl
  · rw [hfailed] at hq
    have hnull : rtNull = 0x20001018 := hq
    cases hnull

end RtThread.MemHeap
