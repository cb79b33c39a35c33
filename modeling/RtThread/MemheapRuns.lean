import RtThread.MemheapResize
import RtThread.GuardedRun

/-!
# Runs of a memory heap

A run starts with `rt_memheap_init` and goes on with calls of
`rt_memheap_alloc`, `rt_memheap_realloc` and `rt_memheap_free`.  The state
carries the pointers which the application holds.
-/

namespace RtThread.MemHeap

open List

structure PoolState where
  state : State
  live : List ℕ

inductive Call where
  | alloc (size : UInt32)
  | realloc (ptr : ℕ) (newsize : UInt32)
  | free (ptr : ℕ)

/-- The pointers after `rt_memheap_realloc`, which frees when the size is zero
and leaves the old item alone when it fails. -/
def regrant (ptr newsize p : ℕ) (live : List ℕ) : List ℕ :=
  if newsize = 0 then live.erase ptr
  else if p = rtNull then live
  else p :: live.erase ptr

variable {a : AlignSize}

/-- One call; `none` is a call which does not return. -/
def execute (area : Area a) (s : PoolState) : Call → Option PoolState
  | .alloc size =>
    (rtMemheapAlloc a s.state area.heap size.toNat).map fun result =>
      ⟨result.1, grant result.2 s.live⟩
  | .realloc ptr newsize =>
    (rtMemheapRealloc a s.state area.heap ptr newsize.toNat).map fun result =>
      ⟨result.1, regrant ptr newsize.toNat result.2 s.live⟩
  | .free ptr => some ⟨rtMemheapFree a s.state ptr, s.live.erase ptr⟩

def SizeFits (a : AlignSize) (size : ℕ) : Prop :=
  size + (a.bytes - 1) < 4294967296 ∧ rtAlign a size + miniAlloc < 4294967296

def Call.Legal (a : AlignSize) (live : List ℕ) : Call → Prop
  | .alloc size => SizeFits a size.toNat
  | .realloc ptr newsize => (ptr = rtNull ∨ ptr ∈ live) ∧ SizeFits a newsize.toNat
  | .free ptr => ptr = rtNull ∨ ptr ∈ live

def Call.Granted (live : List ℕ) : Call → Prop
  | .alloc _ => True
  | .realloc ptr _ => ptr = rtNull ∨ ptr ∈ live
  | .free ptr => ptr = rtNull ∨ ptr ∈ live

def Call.GrowthChecked (a : AlignSize) (s : PoolState) : Call → Prop
  | .alloc _ => True
  | .realloc ptr newsize => ptr ∈ s.live →
      ¬WrappedGrowth a s.state.memory (ptr - memheapSize a) (itemSize a newsize.toNat)
  | .free _ => True

theorem Call.Legal.granted {live : List ℕ} {call : Call} (hlegal : call.Legal a live) :
    call.Granted live := by
  cases call with
  | alloc size => trivial
  | realloc ptr newsize => exact hlegal.1
  | free ptr => exact hlegal

theorem Call.Legal.growthChecked {s : PoolState} {call : Call} (hlegal : call.Legal a s.live) :
    call.GrowthChecked a s := by
  cases call with
  | alloc size => trivial
  | realloc ptr newsize => exact fun _ => not_wrappedGrowth hlegal.2.2
  | free ptr => trivial

def poolSystem (area : Area a) : TransitionSystem PoolState Call where
  init s := ∃ before : State,
      s.state = rtMemheapInit a before area.heap area.head area.start area.size ∧ s.live = []
  step s call s' := call.Legal a s.live ∧ execute area s call = some s'

structure Owned (area : Area a) (s : PoolState) : Prop where
  holds : Holds area s.state fun i => i + memheapSize a ∈ s.live
  live_nodup : s.live.Nodup
  live_ge : ∀ p ∈ s.live, memheapSize a ≤ p

variable {area : Area a} {s s' : PoolState} {x y : ℕ}

theorem Holds.congr {state : State} {used used' : ℕ → Prop} (hholds : Holds area state used)
    (hiff : ∀ i, used i ↔ used' i) : Holds area state used' := by
  rcases hholds with ⟨bs, fs, hinv, hused⟩
  exact ⟨bs, fs, hinv, fun i => (hused i).trans (hiff i)⟩

namespace Owned

section

variable (howned : Owned area s)
include howned

theorem null_not_mem : rtNull ∉ s.live := by
  intro hmem
  have hsize := twentyFour_le_memheapSize a
  have hge := howned.live_ge rtNull hmem
  unfold rtNull at hge
  omega

theorem exists_item {p : ℕ} (hp : p ∈ s.live) : ∃ x, p = x + memheapSize a := by
  have hge := howned.live_ge p hp
  exact ⟨p - memheapSize a, by omega⟩

theorem allocates {state : State} (hfresh : y + memheapSize a ∉ s.live)
    (hholds : Holds area state fun i => i = y ∨ i + memheapSize a ∈ s.live) :
    Owned area ⟨state, grant (y + memheapSize a) s.live⟩ := by
  have hgrant : grant (y + memheapSize a) s.live = (y + memheapSize a) :: s.live :=
    if_neg (add_memheapSize_ne_null a y)
  rw [hgrant]
  constructor
  · apply hholds.congr
    intro i
    simp
  · exact nodup_cons.mpr ⟨hfresh, howned.live_nodup⟩
  · intro p hp
    rcases mem_cons.mp hp with hp | hp
    · omega
    · exact howned.live_ge p hp

theorem releases {state : State}
    (hholds : Holds area state fun i => i + memheapSize a ∈ s.live ∧ i ≠ x) :
    Owned area ⟨state, s.live.erase (x + memheapSize a)⟩ := by
  constructor
  · apply hholds.congr
    intro i
    simp only [howned.live_nodup.mem_erase_iff]
    constructor
    · rintro ⟨hi, hne⟩
      exact ⟨by omega, hi⟩
    · rintro ⟨hne, hi⟩
      exact ⟨hi, by omega⟩
  · exact howned.live_nodup.erase _
  · intro p hp
    exact howned.live_ge p (mem_of_mem_erase hp)

theorem replaces {state : State} (hy : y = x ∨ y + memheapSize a ∉ s.live)
    (hholds : Holds area state fun i => i = y ∨ (i + memheapSize a ∈ s.live ∧ i ≠ x)) :
    Owned area ⟨state, (y + memheapSize a) :: s.live.erase (x + memheapSize a)⟩ := by
  constructor
  · apply hholds.congr
    intro i
    simp only [mem_cons, howned.live_nodup.mem_erase_iff, Nat.add_right_cancel_iff, ne_eq]
    constructor
    · rintro (hi | ⟨hi, hne⟩)
      · exact .inl hi
      · exact .inr ⟨hne, hi⟩
    · rintro (hi | ⟨hne, hi⟩)
      · exact .inl hi
      · exact .inr ⟨hi, hne⟩
  · apply nodup_cons.mpr
    refine ⟨?_, howned.live_nodup.erase _⟩
    rw [howned.live_nodup.mem_erase_iff]
    rintro ⟨hne, hmem⟩
    rcases hy with hy | hy
    · exact hne (by rw [hy])
    · exact hy hmem
  · intro p hp
    rcases mem_cons.mp hp with hp | hp
    · omega
    · exact howned.live_ge p (mem_of_mem_erase hp)

theorem of_resized {result : State × ℕ} {newsize : ℕ} (hx : x + memheapSize a ∈ s.live)
    (hresized : Resized area s.state (fun i => i + memheapSize a ∈ s.live) x newsize result) :
    Owned area ⟨result.1, regrant (x + memheapSize a) newsize result.2 s.live⟩ := by
  unfold regrant
  cases hresized with
  | released hzero hholds =>
    rw [if_pos hzero]
    exact howned.releases hholds
  | failed hpos =>
    rw [if_neg hpos, if_pos rfl]
    exact howned
  | kept hpos hholds =>
    rw [if_neg hpos, if_neg (add_memheapSize_ne_null a x)]
    apply howned.replaces (.inl rfl)
    apply hholds.congr
    intro i
    by_cases hix : i = x
    · simp [hix, hx]
    · simp [hix]
  | moved hpos hfresh hholds =>
    rw [if_neg hpos, if_neg (add_memheapSize_ne_null a _)]
    exact howned.replaces (.inr hfresh) hholds

theorem of_alloc (size : ℕ) : ∃ result, rtMemheapAlloc a s.state area.heap size = some result ∧
      Owned area ⟨result.1, grant result.2 s.live⟩ := by
  rcases howned.holds.rtMemheapAlloc size with ⟨result, hresult, hcases⟩
  refine ⟨result, hresult, ?_⟩
  rcases hcases with hnull | ⟨y, hp, hfresh, hholds, -⟩
  · rw [hnull]
    exact howned
  · rw [hp]
    exact howned.allocates hfresh hholds

theorem execute {call : Call} (hgranted : call.Granted s.live)
    (hgrowth : call.GrowthChecked a s) : ∃ s', execute area s call = some s' ∧ Owned area s' := by
  cases call with
  | alloc size =>
    rcases howned.of_alloc size.toNat with ⟨result, hresult, howned'⟩
    exact ⟨_, by rw [MemHeap.execute, hresult]; rfl, howned'⟩
  | realloc ptr newsize =>
    by_cases hnull : ptr = rtNull
    · have herase : s.live.erase ptr = s.live := by
        rw [hnull]
        exact erase_of_not_mem howned.null_not_mem
      unfold MemHeap.execute rtMemheapRealloc regrant
      simp only [herase]
      by_cases hzero : newsize.toNat = 0
      · have hfree : rtMemheapFree a s.state ptr = s.state := if_pos hnull
        simp only [if_pos hzero, hfree]
        exact ⟨_, rfl, howned⟩
      · simp only [if_neg hzero, if_pos hnull]
        rcases howned.of_alloc (itemSize a newsize.toNat) with ⟨result, hresult, howned'⟩
        rw [hresult]
        exact ⟨_, rfl, howned'⟩
    · have hlive := Or.resolve_left hgranted hnull
      rcases howned.exists_item hlive with ⟨x, rfl⟩
      have hunwrapped := hgrowth hlive
      rw [Nat.add_sub_cancel] at hunwrapped
      rcases howned.holds.rtMemheapRealloc hlive hunwrapped with ⟨result, hresult, hresized⟩
      exact ⟨_, by rw [MemHeap.execute, hresult]; rfl, howned.of_resized hlive hresized⟩
  | free ptr =>
    refine ⟨_, rfl, ?_⟩
    by_cases hnull : ptr = rtNull
    · have hfree : rtMemheapFree a s.state ptr = s.state := if_pos hnull
      rw [hfree, hnull, erase_of_not_mem howned.null_not_mem]
      exact howned
    · have hlive := Or.resolve_left hgranted hnull
      rcases howned.exists_item hlive with ⟨x, rfl⟩
      exact howned.releases (howned.holds.rtMemheapFree hlive)

end

theorem of_init (hinit : (poolSystem area).init s) : Owned area s := by
  rcases hinit with ⟨start, hstate, hlive⟩
  have hinv := rtMemheapInit_inv area start
  have hfree := (hinv.free_iff area.start).mp (by simp)
  constructor
  · rw [hstate, hlive]
    refine ⟨_, _, hinv, ?_⟩
    intro i
    simp only [mem_singleton, not_mem_nil, iff_false, not_and]
    intro hi
    rw [hi, hfree.2]
    decide
  · rw [hlive]
    exact nodup_nil
  · rw [hlive]
    simp

theorem of_reachable {guard : PoolState → Call → Prop}
    (hreach : (poolSystem area).Reachable guard s) :
    Owned area s := by
  apply hreach.invariant (P := fun s => Owned area s)
  · intro s hinit
    exact of_init hinit
  · rintro s call s' howned - ⟨hlegal, hexecute⟩
    rcases howned.execute hlegal.granted hlegal.growthChecked with ⟨s'', hexecute', howned'⟩
    rw [hexecute] at hexecute'
    exact Option.some.inj hexecute' ▸ howned'

end Owned

def BlockLink (m : Memory) (x y : ℕ) : Prop := get m .next x = y ∧ get m .prev y = x

def FreeLink (m : Memory) (x y : ℕ) : Prop :=
  get m .nextFree x = y ∧ get m .prevFree y = x

/-- The memory holds the two rings of `bs` and `fs`. -/
structure Represented (area : Area a) (s : PoolState) (bs fs : List ℕ) : Prop where
  first : bs.head? = some area.start
  address_order : (bs ++ [area.tail]).Pairwise (· < ·)
  block_ring : (area.tail :: bs ++ [area.tail]).IsChain (BlockLink s.state.memory)
  tailer_used : isUsed s.state.memory area.tail = true
  free_ring : (area.head :: fs ++ [area.head]).IsChain (FreeLink s.state.memory)
  free_nodup : fs.Nodup
  free_iff : ∀ i, i ∈ fs ↔ i ∈ bs ++ [area.tail] ∧ isUsed s.state.memory i = false
  noFreePair :
    (bs ++ [area.tail]).IsChain fun x y =>
      isUsed s.state.memory x = true ∨ isUsed s.state.memory y = true
  available_eq :
    (s.state.heaps area.heap).availableSize = (fs.map (memitemSize a s.state.memory)).sum
  maxUsed_ge : (s.state.heaps area.heap).poolSize - (s.state.heaps area.heap).availableSize ≤
      (s.state.heaps area.heap).maxUsedSize
  poolSize_eq : (s.state.heaps area.heap).poolSize = area.poolSize
  live_iff : ∀ p, p ∈ s.live ↔ ∃ i ∈ bs, isUsed s.state.memory i = true ∧ p = i + memheapSize a

variable {bs fs : List ℕ}

theorem freeSum_eq_filter (m : Memory) (bs : List ℕ) : freeSum a m bs =
      ((bs.filter fun i => !isUsed m i).map fun i =>
        get m .next i - i - memheapSize a).sum := by
  induction bs with
  | nil => rfl
  | cons b bs ih =>
    rw [freeSum_cons, ih, freeBytes]
    cases hused : isUsed m b with
    | true | false => simp [hused]

theorem PoolInv.available_eq_sum {state : State} (hinv : PoolInv area state bs fs) :
    (state.heaps area.heap).availableSize = (fs.map (memitemSize a state.memory)).sum := by
  have hnodup := (nodup_cons.mp hinv.rings.freeRing.nodup).2
  have hperm : (bs.filter fun i => !isUsed state.memory i).Perm fs := by
    apply (perm_ext_iff_of_nodup (hinv.ordered.nodup.filter _) hnodup).mpr
    intro i
    rw [hinv.free_iff i, mem_filter]
    simp
  have hsizes : fs.map (memitemSize a state.memory) =
      fs.map fun i => get state.memory .next i - i - memheapSize a := by
    apply map_congr_left
    intro i hi
    exact hinv.rings.memitemSize_eq hinv.ordered (hinv.free_mem hi)
  rw [hinv.available_eq, freeSum_eq_filter, hsizes]
  exact (hperm.map _).sum_eq

theorem Owned.represented_of_inv (howned : Owned area s) (hinv : PoolInv area s.state bs fs)
    (hused : ∀ i, (i ∈ bs ∧ isUsed s.state.memory i = true) ↔ i + memheapSize a ∈ s.live) :
    Represented area s bs fs := by
  have hsize := twentyFour_le_memheapSize a
  constructor
  · exact hinv.ordered.first
  · apply hinv.ordered.pairwise.imp
    intro x y hxy
    unfold Behind at hxy
    omega
  · exact hinv.rings.blockRing.links
  · exact hinv.tail_used
  · exact hinv.rings.freeRing.links
  · exact (nodup_cons.mp hinv.rings.freeRing.nodup).2
  · intro i
    rw [hinv.free_iff i]
    constructor
    · rintro ⟨hi, hfree⟩
      exact ⟨mem_append_left _ hi, hfree⟩
    · rintro ⟨hi, hfree⟩
      rcases mem_append.mp hi with hi | hi
      · exact ⟨hi, hfree⟩
      · rw [mem_singleton.mp hi, hinv.tail_used] at hfree
        cases hfree
  · exact hinv.noFreePair
  · exact hinv.available_eq_sum
  · exact hinv.maxUsed_le
  · exact hinv.poolSize_eq
  · intro p
    constructor
    · intro hp
      rcases howned.exists_item hp with ⟨x, rfl⟩
      rcases (hused x).mpr hp with ⟨hx, hxused⟩
      exact ⟨x, hx, hxused, rfl⟩
    · rintro ⟨i, hi, hiused, rfl⟩
      exact (hused i).mp ⟨hi, hiused⟩

theorem Owned.represented (howned : Owned area s) : ∃ bs fs, Represented area s bs fs := by
  rcases howned.holds with ⟨bs, fs, hinv, hused⟩
  exact ⟨bs, fs, howned.represented_of_inv hinv hused⟩

/-- In every run the two lists, the flags and the counters describe one heap, and
every legal call returns. -/
theorem represented_of_reachable (area : Area a) {s : PoolState}
    (hreach : (poolSystem area).Reachable (fun _ _ => True) s) :
    (∃ bs fs, Represented area s bs fs) ∧
      ∀ call : Call, call.Legal a s.live → ∃ s', execute area s call = some s' := by
  have howned := Owned.of_reachable hreach
  refine ⟨howned.represented, ?_⟩
  intro call hlegal
  rcases howned.execute hlegal.granted hlegal.growthChecked with ⟨s', hexecute, -⟩
  exact ⟨s', hexecute⟩

section Sample

instance (a : AlignSize) (live : List ℕ) (call : Call) : Decidable (call.Legal a live) :=
  match call with
  | .alloc size => inferInstanceAs (Decidable (size.toNat + (a.bytes - 1) < 4294967296 ∧
        rtAlign a size.toNat + miniAlloc < 4294967296))
  | .realloc ptr newsize => inferInstanceAs (Decidable
      ((ptr = rtNull ∨ ptr ∈ live) ∧ newsize.toNat + (a.bytes - 1) < 4294967296 ∧
        rtAlign a newsize.toNat + miniAlloc < 4294967296))
  | .free ptr => inferInstanceAs (Decidable (ptr = rtNull ∨ ptr ∈ live))

def sampleArea : Area wordAlign where
  heap := 0x10000000
  head := 0x10000080
  start := 0x20000000
  size := 1024
  start_dvd := by decide
  size_gt := by decide
  size_lt := by decide
  fits := by decide
  heap_lt := by decide
  head_fits := by decide
  head_apart := by decide

def otherArea : Area wordAlign where
  heap := 0x10000100
  head := 0x10000180
  start := 0x20001000
  size := 1024
  start_dvd := by decide
  size_gt := by decide
  size_lt := by decide
  fits := by decide
  heap_lt := by decide
  head_fits := by decide
  head_apart := by decide

def sampleInit : PoolState where
  state := rtMemheapInit wordAlign ⟨fun _ => 0, fun _ => ⟨0, 0, 0, 0, 0, 0, 0⟩⟩
    sampleArea.heap sampleArea.head sampleArea.start sampleArea.size
  live := []

def sampleRun (calls : List Call) : Option PoolState :=
  calls.foldlM
    (fun s call => if call.Legal wordAlign s.live then execute sampleArea s call else none)
    sampleInit

theorem reachable_sampleRun {calls : List Call} (hrun : sampleRun calls = some s) :
    (poolSystem sampleArea).Reachable (fun _ _ => True) s := by
  have hstart : (poolSystem sampleArea).init sampleInit := ⟨_, rfl, rfl⟩
  apply TransitionSystem.Reachable.foldlM _ (.start hstart) hrun
  intro s call s' hstep
  split_ifs at hstep with hlegal
  exact ⟨trivial, hlegal, hstep⟩

end Sample

theorem represented_of_sample_calls :
    ∃ s, (poolSystem sampleArea).Reachable (fun _ _ => True) s ∧
      s.live = [0x200000d0, 0x20000018, 0x20000174] ∧ ∃ bs fs, Represented sampleArea s bs fs := by
  have hrun : (sampleRun
      [.alloc 100, .alloc 200, .alloc 20, .free 0x20000094, .realloc 0x20000018 160,
        .alloc 16]).map PoolState.live = some [0x200000d0, 0x20000018, 0x20000174] := by
    decide +kernel
  rcases Option.map_eq_some_iff.mp hrun with ⟨s, hs, hlive⟩
  have hreach := reachable_sampleRun hs
  exact ⟨s, hreach, hlive, (represented_of_reachable sampleArea hreach).1⟩

end RtThread.MemHeap
