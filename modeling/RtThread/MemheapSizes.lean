import RtThread.MemheapRuns
import RtThread.MemheapData

/-!
# Requests of every size to a memory heap

A caller may ask for any 32-bit number of bytes.  This module says for which
requests `rt_memheap_alloc` and `rt_memheap_realloc` answer as they should: a
request which is refused although an item is large enough, and the requests for
which a sum wraps.
-/

namespace RtThread.MemHeap

open List Option Word MemHeap.Field

variable {a : AlignSize} {area : Area a} {s s' : PoolState} {x y p n : ℕ} {bs fs : List ℕ}

def requestSystem (area : Area a) : TransitionSystem PoolState Call where
  init := (poolSystem area).init
  step s call s' := call.Granted s.live ∧ execute area s call = some s'

/-! ## The data areas of the items in use -/

theorem bytes_le_memheapSize (a : AlignSize) : a.bytes ≤ memheapSize a :=
  Nat.le_of_dvd (lt_of_lt_of_le (by decide) (twentyFour_le_memheapSize a)) (dvd_rtAlign a)

/-- The items in use are those of the live pointers, and none of them is smaller than
`RT_MEMHEAP_MINIALLOC`. -/
structure Roomy (area : Area a) (s : PoolState) : Prop extends Owned area s where
  room : ∀ i, i + memheapSize a ∈ s.live →
    i + memheapSize a + miniAlloc ≤ get s.state.memory .next i

namespace Roomy

section

variable (hroomy : Roomy area s)
include hroomy

theorem miniAlloc_le (hx : x + memheapSize a ∈ s.live) :
    miniAlloc ≤ memitemSize a s.state.memory x := by
  have hroom := hroomy.room x hx
  have hitem := (hroomy.holds.memitemSize_eq hx).1
  omega

theorem of_alloc {result : State × ℕ} {size : ℕ}
    (hresult : rtMemheapAlloc a s.state area.heap size = some result) :
    Roomy area ⟨result.1, grant result.2 s.live⟩ ∧
      (result.2 ≠ rtNull → ∃ y, result.2 = y + memheapSize a ∧
        itemSize a size ≤ memitemSize a result.1.memory y) := by
  have hframed := hroomy.holds.rtMemheapAlloc_framed hresult
  rcases hroomy.toOwned.of_alloc size with ⟨result', hresult', howned⟩
  rw [hresult, some.injEq] at hresult'
  subst hresult'
  rcases hroomy.holds.rtMemheapAlloc size with ⟨result', hresult', hcases⟩
  rw [hresult, some.injEq] at hresult'
  subst hresult'
  have hmin := (itemSize_spec a size).2
  rcases hcases with hnull | ⟨y, hp, -, hholds, hroom⟩
  · refine ⟨⟨howned, ?_⟩, fun hne => absurd (congrArg Prod.snd hnull) hne⟩
    rw [hnull]
    exact hroomy.room
  · have hitem := (hholds.memitemSize_eq (.inl rfl)).1
    refine ⟨⟨howned, ?_⟩, fun _ => ⟨y, hp, by omega⟩⟩
    intro i hi
    dsimp only at hi ⊢
    rw [hp, grant, if_neg (add_memheapSize_ne_null a y), mem_cons] at hi
    unfold miniAlloc
    rcases hi with hi | hi
    · have hiy : i = y := Nat.add_right_cancel hi
      rw [hiy]
      omega
    · rw [(hframed.kept i hi).next]
      exact hroomy.room i hi

theorem of_realloc {result : State × ℕ} {newsize : ℕ}
    (hx : x + memheapSize a ∈ s.live) (hpos : newsize ≠ 0)
    (hgrowth : ¬WrappedGrowth a s.state.memory x (itemSize a newsize)) (hresult :
      rtMemheapRealloc a s.state area.heap (x + memheapSize a) newsize = some result) :
    Roomy area ⟨result.1, regrant (x + memheapSize a) newsize result.2 s.live⟩ ∧
      (result.2 ≠ rtNull → ∃ y, result.2 = y + memheapSize a ∧
        itemSize a newsize ≤ memitemSize a result.1.memory y) := by
  have hmin := (itemSize_spec a newsize).2
  rcases hroomy.holds.rtMemheapRealloc_data hx hpos hgrowth hresult with ⟨hframed, hcarried⟩
  rcases hroomy.holds.rtMemheapRealloc hx hgrowth with ⟨result', hresult', hresized⟩
  rw [hresult, some.injEq] at hresult'
  subst hresult'
  have howned := hroomy.toOwned.of_resized hx hresized
  by_cases hnull : result.2 = rtNull
  · have hstate : result.1 = s.state := by
      cases hresized with
      | released hzero => exact absurd hzero hpos
      | failed => rfl
      | kept => exact absurd hnull (add_memheapSize_ne_null a x)
      | moved => exact absurd hnull (add_memheapSize_ne_null a _)
    refine ⟨⟨howned, ?_⟩, fun hne => absurd hnull hne⟩
    unfold regrant
    rw [if_neg hpos, if_pos hnull, hstate]
    exact hroomy.room
  · rcases hcarried hnull with ⟨y, hp, hcarried⟩
    have hroom := hcarried.room
    have hlive : ∀ i, i + memheapSize a ∈ regrant (x + memheapSize a) newsize result.2 s.live →
        i = y ∨ (i + memheapSize a ∈ s.live ∧ i ≠ x) := by
      intro i hi
      unfold regrant at hi
      rw [if_neg hpos, if_neg hnull, hp, mem_cons, hroomy.live_nodup.mem_erase_iff] at hi
      rcases hi with hi | ⟨hne, hi⟩
      · exact .inl (Nat.add_right_cancel hi)
      · exact .inr ⟨hi, fun heq => hne (by rw [heq])⟩
    have hy : y + memheapSize a ∈ regrant (x + memheapSize a) newsize result.2 s.live := by
      unfold regrant
      rw [if_neg hpos, if_neg hnull, hp]
      exact mem_cons_self
    have hitem := (howned.holds.memitemSize_eq hy).1
    dsimp only at hitem
    refine ⟨⟨howned, ?_⟩, fun _ => ⟨y, hp, by omega⟩⟩
    intro i hi
    unfold miniAlloc
    rcases hlive i hi with hi | hi
    · rw [hi]
      dsimp only
      omega
    · have hkept := (hframed.kept i hi).next
      rw [hkept]
      exact hroomy.room i hi.1

theorem of_free (hx : x + memheapSize a ∈ s.live) : Roomy area
      ⟨rtMemheapFree a s.state (x + memheapSize a), s.live.erase (x + memheapSize a)⟩ := by
  have hframed := hroomy.holds.rtMemheapFree_framed hx
  constructor
  · exact hroomy.toOwned.releases (hroomy.holds.rtMemheapFree hx)
  · intro i hi
    have hi' := hroomy.live_nodup.mem_erase_iff.mp hi
    have hne : i ≠ x := fun heq => hi'.1 (by rw [heq])
    rw [(hframed.kept i ⟨hi'.2, hne⟩).next]
    exact hroomy.room i hi'.2

theorem execute {call : Call} (hgranted : call.Granted s.live)
    (hgrowth : call.GrowthChecked a s) (hexecute : MemHeap.execute area s call = some s') :
    Roomy area s' := by
  cases call with
  | alloc size =>
    rcases map_eq_some_iff.mp hexecute with ⟨result, hresult, rfl⟩
    exact (hroomy.of_alloc hresult).1
  | realloc ptr newsize =>
    rcases map_eq_some_iff.mp hexecute with ⟨result, hresult, rfl⟩
    by_cases hnull : ptr = rtNull
    · have herase : s.live.erase ptr = s.live := by
        rw [hnull]
        exact erase_of_not_mem hroomy.null_not_mem
      unfold rtMemheapRealloc at hresult
      unfold regrant
      rw [herase]
      by_cases hzero : newsize.toNat = 0
      · have hfree : rtMemheapFree a s.state ptr = s.state := if_pos hnull
        rw [if_pos hzero, some.injEq, hfree] at hresult
        rw [if_pos hzero, ← hresult]
        exact hroomy
      · rw [if_neg hzero, if_pos hnull] at hresult
        rw [if_neg hzero]
        exact (hroomy.of_alloc hresult).1
    · have hlive := Or.resolve_left hgranted hnull
      rcases hroomy.exists_item hlive with ⟨x, rfl⟩
      have hunwrapped := hgrowth hlive
      rw [Nat.add_sub_cancel] at hunwrapped
      by_cases hzero : newsize.toNat = 0
      · unfold rtMemheapRealloc at hresult
        rw [if_pos hzero, some.injEq] at hresult
        unfold regrant
        rw [if_pos hzero, ← hresult]
        exact hroomy.of_free hlive
      · exact (hroomy.of_realloc hlive hzero hunwrapped hresult).1
  | free ptr =>
    rw [← some.inj hexecute]
    by_cases hnull : ptr = rtNull
    · have hfree : rtMemheapFree a s.state ptr = s.state := if_pos hnull
      rw [hfree, hnull, erase_of_not_mem hroomy.null_not_mem]
      exact hroomy
    · have hlive := Or.resolve_left hgranted hnull
      rcases hroomy.exists_item hlive with ⟨x, rfl⟩
      exact hroomy.of_free hlive

end

theorem of_init (hinit : (poolSystem area).init s) : Roomy area s := by
  have hlive : s.live = [] := by
    rcases hinit with ⟨-, -, hlive⟩
    exact hlive
  refine ⟨Owned.of_init hinit, ?_⟩
  intro i hi
  rw [hlive] at hi
  cases hi

theorem of_reachable (hreach : (requestSystem area).Reachable (fun s call =>
    call.GrowthChecked a s) s) : Roomy area s := by
  apply hreach.invariant (P := fun s => Roomy area s)
  · intro s hinit
    exact of_init hinit
  · intro s call s' hroomy hgrowth hstep
    exact hroomy.execute hstep.1 hgrowth hstep.2

end Roomy

/-! ## Sample runs -/

section Sample

instance (live : List ℕ) (call : Call) : Decidable (call.Granted live) :=
  match call with
  | .alloc _ => inferInstanceAs (Decidable True)
  | .realloc _ _ => inferInstanceAs (Decidable (_ ∨ _))
  | .free _ => inferInstanceAs (Decidable (_ ∨ _))

instance (a : AlignSize) (s : PoolState) (call : Call) : Decidable (call.GrowthChecked a s) :=
  match call with
  | .alloc _ => inferInstanceAs (Decidable True)
  | .realloc _ _ => inferInstanceAs (Decidable (_ → _))
  | .free _ => inferInstanceAs (Decidable True)

def requestRun (calls : List Call) : Option PoolState :=
  calls.foldlM
    (fun s call =>
      if call.Granted s.live ∧ call.GrowthChecked wordAlign s then execute sampleArea s call
      else none)
    sampleInit

theorem reachable_requestRun {calls : List Call} (hrun : requestRun calls = some s) :
    (requestSystem sampleArea).Reachable (fun s call => call.GrowthChecked wordAlign s) s := by
  have hstart : (requestSystem sampleArea).init sampleInit := ⟨_, rfl, rfl⟩
  apply TransitionSystem.Reachable.foldlM _ (.start hstart) hrun
  intro s call s' hstep
  split_ifs at hstep with hlegal
  exact ⟨hlegal.2, hlegal.1, hstep⟩

end Sample

/-! ## Requests which are refused -/

/-- Nothing is given only when every free item is too small. -/
def RefusesFairly (area : Area a) (s : PoolState) (fs : List ℕ) (size : ℕ) : Prop :=
  ∃ result, rtMemheapAlloc a s.state area.heap size = some result ∧ (result.2 = rtNull →
      ∀ i ∈ fs, memitemSize a s.state.memory i < max (rtAlign a size) miniAlloc)

/-- The bytes asked for are all that is available, in one item. -/
def ExactFit (area : Area a) (s : PoolState) (fs : List ℕ) (size : ℕ) : Prop :=
  (s.state.heaps area.heap).availableSize = max (rtAlign a size) miniAlloc ∧
    ∃ i ∈ fs, memitemSize a s.state.memory i = max (rtAlign a size) miniAlloc

theorem itemSize_eq_max (a : AlignSize) (size : ℕ) :
    itemSize a size = max (rtAlign a size) miniAlloc := by
  unfold itemSize
  split_ifs <;> omega

theorem PoolInv.memitemSize_le_available {state : State} (hinv : PoolInv area state bs fs)
    (hx : x ∈ fs) : memitemSize a state.memory x ≤ (state.heaps area.heap).availableSize := by
  rw [hinv.available_eq_sum]
  exact single_le_sum (fun _ _ => Nat.zero_le _) _ (mem_map_of_mem hx)

/-- In every run whose steps check the growth of items, `rt_memheap_alloc` refuses a size for
which there is a free item just in case that item is an exact fit. -/
theorem refusesFairly_iff (area : Area a)
    (hreach : (requestSystem area).Reachable (fun s call => call.GrowthChecked a s) s) :
    ∃ bs fs, Represented area s bs fs ∧ ∀ size : UInt32, size.toNat + (a.bytes - 1) < 4294967296 →
        (RefusesFairly area s fs size.toNat ↔ ¬ExactFit area s fs size.toNat) := by
  have hroomy := Roomy.of_reachable hreach
  rcases hroomy.holds with ⟨bs, fs, hinv, hused⟩
  refine ⟨bs, fs, hroomy.represented_of_inv hinv hused, ?_⟩
  intro size _
  rcases hinv.rtMemheapAlloc size.toNat with ⟨result, hresult, -⟩
  have hnull := hinv.rtMemheapAlloc_eq_null_iff hresult
  unfold Serves at hnull
  rw [itemSize_eq_max] at hnull
  constructor
  · rintro ⟨result', hresult', hfair⟩ ⟨havailable, i, hi, hitem⟩
    rw [hresult, some.injEq] at hresult'
    subst hresult'
    have hserves : ¬(max (rtAlign a size.toNat) miniAlloc <
        (s.state.heaps area.heap).availableSize ∧
          ∃ i ∈ fs, max (rtAlign a size.toNat) miniAlloc ≤ memitemSize a s.state.memory i) := by
      rintro ⟨hlt, -⟩
      lia
    have hsmall := hfair (hnull.mpr hserves) i hi
    lia
  · intro hexact
    refine ⟨result, hresult, ?_⟩
    intro hzero i hi
    by_contra hlarge
    have hle := hinv.memitemSize_le_available hi
    have hserves := hnull.mp hzero
    apply hexact
    have havailable : ¬max (rtAlign a size.toNat) miniAlloc <
        (s.state.heaps area.heap).availableSize :=
      fun hlt => hserves ⟨hlt, i, hi, by lia⟩
    exact ⟨by lia, i, hi, by lia⟩

theorem refusesFairly_after_alloc : ∃ s, (requestSystem sampleArea).Reachable
        (fun s call => call.GrowthChecked wordAlign s) s ∧
      ∃ bs fs, Represented sampleArea s bs fs ∧ RefusesFairly sampleArea s fs 500 := by
  have hrun : (requestRun [.alloc 100]).map
      (fun s => (s.state.heaps sampleArea.heap).availableSize) = some 852 := by
    decide +kernel
  rcases map_eq_some_iff.mp hrun with ⟨s, hs, havailable⟩
  have hreach := reachable_requestRun hs
  rcases refusesFairly_iff sampleArea hreach with ⟨bs, fs, hrep, hiff⟩
  refine ⟨s, hreach, bs, fs, hrep, (hiff 500 (by decide)).mpr ?_⟩
  intro hexact
  have heq := havailable.symm.trans hexact.1
  exact absurd heq (by decide)

/-- A fresh heap refuses all it has. -/
theorem not_refusesFairly_fresh : ¬∀ s, (requestSystem sampleArea).Reachable
        (fun s call => call.GrowthChecked wordAlign s) s → ∀ bs fs, Represented sampleArea s bs fs →
        ∀ size : UInt32, size.toNat + (wordAlign.bytes - 1) < 4294967296 →
          RefusesFairly sampleArea s fs size.toNat := by
  intro hall
  have hinit : (poolSystem sampleArea).init sampleInit := ⟨_, rfl, rfl⟩
  have hinv : PoolInv sampleArea sampleInit.state [sampleArea.start] [sampleArea.start] :=
    rtMemheapInit_inv sampleArea _
  have hfree := (hinv.free_iff sampleArea.start).mp (by simp)
  have hrep := (Owned.of_init hinit).represented_of_inv hinv (by
    intro i
    constructor
    · rintro ⟨hi, hused⟩
      rw [mem_singleton.mp hi, hfree.2] at hused
      exact absurd hused (by decide)
    · intro hi
      exact absurd hi not_mem_nil)
  rcases hall sampleInit (.start hinit) _ _ hrep 976 (by decide) with ⟨result, hresult, hfair⟩
  have hnull : (rtMemheapAlloc wordAlign sampleInit.state sampleArea.heap 976).map Prod.snd =
      some rtNull := by
    decide +kernel
  have hitem : ¬memitemSize wordAlign sampleInit.state.memory sampleArea.start <
      max (rtAlign wordAlign 976) miniAlloc := by
    decide +kernel
  rw [show UInt32.toNat 976 = 976 from rfl] at hresult hfair
  rw [hresult, map_some, some.injEq] at hnull
  exact hitem (hfair hnull _ (by simp))

/-! ## Requests for which a sum wraps -/

def WellFormed (area : Area a) (s : PoolState) : Prop :=
  ∃ bs fs, Represented area s bs fs ∧ (bs ++ [area.tail]).Pairwise (Behind a)

def Answered (a : AlignSize) (n : ℕ) (result : State × ℕ) : Prop :=
  result.2 = rtNull ∨ ∃ x, result.2 = x + memheapSize a ∧ n ≤ memitemSize a result.1.memory x

def AllocSafe (area : Area a) (s : PoolState) (n : ℕ) : Prop :=
  ∃ result, rtMemheapAlloc a s.state area.heap n = some result ∧ Answered a n result ∧
    WellFormed area ⟨result.1, grant result.2 s.live⟩

def ReallocSafe (area : Area a) (s : PoolState) (p n : ℕ) : Prop :=
  ∃ result, rtMemheapRealloc a s.state area.heap p n = some result ∧ Answered a n result ∧
    WellFormed area ⟨result.1, regrant p n result.2 s.live⟩

theorem Owned.wellFormed (howned : Owned area s) : WellFormed area s := by
  rcases howned.holds with ⟨bs, fs, hinv, hused⟩
  exact ⟨bs, fs, howned.represented_of_inv hinv hused, hinv.ordered.pairwise⟩

theorem WellFormed.le_next (hformed : WellFormed area s) (hx : x + memheapSize a ∈ s.live) :
    x + memheapSize a ≤ get s.state.memory .next x := by
  rcases hformed with ⟨bs, fs, hrep, hpair⟩
  rcases (hrep.live_iff _).mp hx with ⟨i, hi, -, heq⟩
  have hix : x = i := Nat.add_right_cancel heq
  rw [← hix] at hi
  rcases append_of_mem hi with ⟨before, after, hbs⟩
  rcases exists_cons_of_append_head after area.tail with ⟨z, rest, hz, -⟩
  have hsplit : bs ++ [area.tail] = before ++ x :: z :: rest := by
    rw [hbs, append_assoc, cons_append, hz]
  have hring := hrep.block_ring
  rw [cons_append, hsplit, ← cons_append] at hring
  have hnext : get s.state.memory .next x = z := (isChain_append_cons_cons.mp hring).2.1.1
  rw [hsplit, pairwise_append, pairwise_cons] at hpair
  rw [hnext]
  exact hpair.2.1.1 z mem_cons_self

/-! ### A header in front of the data -/

theorem memheapSize_eq_of_wrap (hsize : 4294967296 ≤ itemSize a n + miniAlloc) :
    memheapSize a = 24 ∧ itemSize a n < 4294967296 := by
  have halign : rtAlign a n < 4294967296 := rtAlign_lt a
  have hround : itemSize a n = rtAlign a n := by
    unfold itemSize miniAlloc at *
    split_ifs at hsize ⊢ <;> lia
  have hdvd : a.bytes ∣ rtAlign a n := dvd_rtAlign a
  have hword : a.bytes ∣ 4294967296 := by
    have hpow : (4294967296 : ℕ) = 2 ^ 32 := by norm_num
    rw [hpow]
    exact Nat.pow_dvd_pow 2 (a.bits_le.trans (by decide))
  unfold miniAlloc at hsize
  have hle : a.bytes ≤ 4294967296 - rtAlign a n := Nat.le_of_dvd (by lia) (Nat.dvd_sub hword hdvd)
  have hbits : a.bits ≤ 3 := by
    by_contra hbits
    have hlarge : 2 ^ 4 ≤ a.bytes := Nat.pow_le_pow_right (by decide) (by lia)
    lia
  refine ⟨?_, by lia⟩
  have hcases : a.bits = 0 ∨ a.bits = 1 ∨ a.bits = 2 ∨ a.bits = 3 := by lia
  unfold memheapSize rtAlign AlignSize.bytes
  rcases hcases with hb | hb | hb | hb <;> rw [hb] <;> decide

theorem get_set_of_apart {m : Memory} {f g : Field} {i j v : ℕ}
    (hapart : j + g.offset + 4 ≤ i + f.offset ∨ i + f.offset + 4 ≤ j + g.offset) :
    get (set m f i v) g j = get m g j :=
  Memory.load_store_of_apart m hapart

theorem get_insertItem_overlap {m : Memory} {q i : ℕ} (heap : ℕ)
    (hlow : x + 12 ≤ q) (hhigh : q < x + 24) (hlt : q < 4294967296) (hi : i + 24 ≤ x ∨ x + 48 ≤ i)
    (hnext : get m .next x + 24 ≤ i ∨ i + 24 ≤ get m .next x) :
    get (insertItem m heap x q) .next x = q ∧
      get (insertItem m heap x q) .nextFree i = get m .nextFree i := by
  unfold insertItem
  dsimp only
  have hnextx : get (set (set (set m .magic q memheapMagic) .poolPtr q heap) .prev q x)
      .next x = get m .next x := by
    rw [get_set_of_apart (by simp only [offset]; lia),
      get_set_of_apart (by simp only [offset]; lia),
      get_set_of_apart (by simp only [offset]; lia)]
  have hnextx' : get (set (set (set (set m .magic q memheapMagic) .poolPtr q heap) .prev q x)
      .next q (get m .next x)) .next x = get m .next x := by
    rw [get_set_of_apart (by simp only [offset]; lia), hnextx]
  rw [hnextx, hnextx']
  constructor
  · unfold get set
    rw [Memory.load_store_same]
    exact Nat.mod_eq_of_lt hlt
  · rw [get_set_of_apart (by simp only [offset]; lia),
      get_set_of_apart (by simp only [offset]; lia),
      get_set_of_apart (by simp only [offset]; lia),
      get_set_of_apart (by simp only [offset]; lia),
      get_set_of_apart (by simp only [offset]; lia),
      get_set_of_apart (by simp only [offset]; lia)]

theorem get_pushFree_overlap {m : Memory} {head q : ℕ} (hlow : x + 12 ≤ q) (hhigh : q < x + 24)
    (hhead : head + 24 ≤ x ∨ x + 48 ≤ head)
    (hfirst : get m .nextFree head = x ∨ get m .nextFree head + 24 ≤ x ∨
      x + 24 ≤ get m .nextFree head) : get (pushFree m head q) .next x = get m .next x := by
  unfold pushFree
  dsimp only
  have hread : get (set (set m .nextFree q (get m .nextFree head)) .prevFree q head)
      .nextFree head = get m .nextFree head := by
    rw [get_set_of_apart (by simp only [offset]; lia),
      get_set_of_apart (by simp only [offset]; lia)]
  rw [hread, get_set_of_apart (by simp only [offset]; lia),
    get_set_of_apart (by simp only [offset]; lia),
    get_set_of_apart (by simp only [offset]; lia),
    get_set_of_apart (by simp only [offset]; lia)]

theorem PoolInv.next_growItem_lt {state : State} (hinv : PoolInv area state bs fs) (hx : x ∈ bs)
    (hused : isUsed state.memory x = true)
    (hwrapped : WrappedGrowth a state.memory x (itemSize a n)) :
    get (MemHeap.growItem a state area.heap x (memitemSize a state.memory x) (itemSize a n)).memory
      .next x < x + memheapSize a := by
  rcases hwrapped with ⟨hsize, hfree, -⟩
  rcases memheapSize_eq_of_wrap hsize with ⟨hheader, hlt⟩
  rcases append_of_mem hx with ⟨before, after₀, hbs⟩
  rcases hinv.next_of_used hbs hfree with ⟨after, hafter⟩
  have hlow := hinv.ordered.start_le hx
  have htail := area.tail_eq
  have hpool := area.poolSize_le
  have hfits := area.fits
  have houtside := area.headOutside
  generalize hy : get state.memory .next x = y at *
  rw [hafter] at hbs
  unfold miniAlloc at hsize
  generalize itemSize a n = size at *
  unfold HeadOutside at houtside
  have hlists := hinv.lists
  rw [hbs] at hlists
  rcases hlists.dropFree hused hfree with ⟨hlists₁, -, -, -⟩
  have hx₁ : x ∈ before ++ x :: after := by simp
  have hxA : x ∈ itemSet area.head area.tail _ := item_mem hx₁
  have hrings₁ := hlists₁.rings
  have hfirst := hrings₁.sep.apart _ (hrings₁.nextFree_mem mem_cons_self) x hxA
  rcases hrings₁.around hlists₁.ordered rfl with ⟨-, -, -, hgap₁, -, hle₁⟩
  unfold MemHeap.growItem
  simp only [hy, hinv.freeList_eq, State.update]
  generalize unlinkBlock (unlinkFree state.memory y) y = m₁ at *
  have hq : add32 (x + memheapSize a) size = x + 24 + size - 4294967296 := by
    unfold add32
    rw [hheader, Nat.mod_eq_sub_mod (by lia), Nat.mod_eq_of_lt (by lia)]
  rw [hq]
  generalize hqe : x + 24 + size - 4294967296 = q at *
  rcases get_insertItem_overlap (m := m₁) (i := area.head) (x := x) (q := q) area.heap
    (by lia) (by lia) (by lia) (by lia) (by lia) with ⟨hnext, hhead⟩
  rw [get_pushFree_overlap (by lia) (by lia) (by lia) (by rw [hhead]; lia), hnext]
  lia

/-! ### Which requests are safe -/

def RoundingWraps (a : AlignSize) (n : ℕ) : Prop := 4294967296 ≤ n + (a.bytes - 1)

theorem le_itemSize (hfits : ¬RoundingWraps a n) : n ≤ itemSize a n := by
  unfold RoundingWraps at hfits
  exact (le_rtAlign a (by omega)).trans (itemSize_spec a n).1

theorem itemSize_of_wrap (hlt : n < 4294967296) (hwraps : RoundingWraps a n) :
    itemSize a n = miniAlloc := by
  unfold RoundingWraps at hwraps
  unfold itemSize
  rw [rtAlign_eq_zero_of_wrap a hlt (by omega)]
  exact if_pos (by decide)

theorem Owned.not_answered {result : State × ℕ} {live : List ℕ}
    (howned : Owned area ⟨result.1, live⟩) (hmem : result.2 ∈ live) (hwraps : RoundingWraps a n) :
    ¬Answered a n result := by
  rintro (hnull | ⟨x, hp, hle⟩)
  · rw [hnull] at hmem
    exact howned.null_not_mem hmem
  · rw [hp] at hmem
    have hitem := (howned.holds.memitemSize_eq hmem).2
    have hheader := bytes_le_memheapSize a
    unfold RoundingWraps at hwraps
    dsimp only at hitem
    omega

namespace Roomy

section

variable (hroomy : Roomy area s)
include hroomy

/-- An allocation is safe unless its rounding wraps around and is served. -/
theorem allocSafe_iff (hinv : PoolInv area s.state bs fs)
    (hlt : n < 4294967296) :
    AllocSafe area s n ↔ ¬(RoundingWraps a n ∧ Serves a s.state area.heap fs miniAlloc) := by
  rcases hinv.rtMemheapAlloc n with ⟨result, hresult, -⟩
  have hnull := hinv.rtMemheapAlloc_eq_null_iff hresult
  rcases hroomy.of_alloc hresult with ⟨hroomy', hroom⟩
  constructor
  · rintro ⟨result', hresult', hanswered, -⟩ ⟨hwraps, hserves⟩
    rw [hresult, some.injEq] at hresult'
    subst hresult'
    rw [itemSize_of_wrap hlt hwraps] at hnull
    have hne : result.2 ≠ rtNull := fun hzero => hnull.mp hzero hserves
    have hmem : result.2 ∈ grant result.2 s.live := by
      unfold grant
      rw [if_neg hne]
      exact mem_cons_self
    exact hroomy'.not_answered hmem hwraps hanswered
  · intro hnot
    refine ⟨result, hresult, ?_, hroomy'.wellFormed⟩
    by_cases hzero : result.2 = rtNull
    · exact .inl hzero
    · rcases hroom hzero with ⟨y, hp, hle⟩
      have hfits : ¬RoundingWraps a n := by
        intro hwraps
        rw [itemSize_of_wrap hlt hwraps] at hnull
        apply hnot
        exact ⟨hwraps, not_not.mp fun hserves => hzero (hnull.mpr hserves)⟩
      exact .inr ⟨y, hp, (le_itemSize hfits).trans hle⟩

theorem not_reallocSafe_of_wrappedGrowth (hx : x + memheapSize a ∈ s.live)
    (hwrapped : WrappedGrowth a s.state.memory x (itemSize a n)) :
    ¬ReallocSafe area s (x + memheapSize a) n := by
  have hheader : x + memheapSize a - memheapSize a = x := by lia
  have hpos : n ≠ 0 := by
    intro hzero
    have hle := hwrapped.1
    have hround : rtAlign a 0 < 0 + a.bytes := rtAlign_lt_add a (by have := a.bytes_le; lia)
    have hbytes := a.bytes_le
    rw [hzero] at hle
    unfold itemSize miniAlloc at hle
    split_ifs at hle <;> lia
  rintro ⟨result, hresult, -, hformed⟩
  rcases hroomy.holds with ⟨bs, fs, hinv, hused⟩
  rcases (hused x).mpr hx with ⟨hxbs, hxused⟩
  have hitem := (hroomy.holds.memitemSize_eq hx).2
  have hle := hwrapped.1
  have hgrow : itemSize a n > memitemSize a s.state.memory x := by
    have hsize := twentyFour_le_memheapSize a
    unfold miniAlloc at hle
    lia
  have hroom : (!isUsed s.state.memory (get s.state.memory .next x)) = true ∧
      add32 (memitemSize a s.state.memory (get s.state.memory .next x))
        (memitemSize a s.state.memory x) > add32 (itemSize a n) miniAlloc := by
    rw [hwrapped.2.1]
    exact ⟨rfl, hwrapped.2.2⟩
  unfold rtMemheapRealloc at hresult
  simp only [if_neg (add_memheapSize_ne_null a x), hheader, if_neg hpos, if_pos hgrow,
    if_pos hroom, some.injEq] at hresult
  have hlive : x + memheapSize a ∈ regrant (x + memheapSize a) n result.2 s.live := by
    rw [← hresult, regrant, if_neg hpos, if_neg (add_memheapSize_ne_null a x)]
    exact mem_cons_self
  have hnext := hformed.le_next hlive
  have hover := hinv.next_growItem_lt hxbs hxused hwrapped
  rw [← hresult] at hnext
  lia

theorem not_reallocSafe_of_wrap (hx : x + memheapSize a ∈ s.live)
    (hpos : n ≠ 0) (hlt : n < 4294967296) (hwraps : RoundingWraps a n) :
    ¬ReallocSafe area s (x + memheapSize a) n := by
  have hheader : x + memheapSize a - memheapSize a = x := by omega
  have hround := itemSize_of_wrap hlt hwraps
  have hgrowth : ¬WrappedGrowth a s.state.memory x (itemSize a n) := by
    intro hwrapped
    have hle := hwrapped.1
    rw [hround] at hle
    exact absurd hle (by decide)
  rintro ⟨result, hresult, hanswered, -⟩
  have hroomy' := (hroomy.of_realloc hx hpos hgrowth hresult).1
  have hkept : result.2 = x + memheapSize a := by
    have hold := hroomy.miniAlloc_le hx
    have hgrow : ¬itemSize a n > memitemSize a s.state.memory x := by omega
    unfold rtMemheapRealloc at hresult
    simp only [if_neg (add_memheapSize_ne_null a x), hheader, if_neg hpos, if_neg hgrow] at hresult
    split_ifs at hresult <;> rw [← some.inj hresult]
  have hmem : result.2 ∈ regrant (x + memheapSize a) n result.2 s.live := by
    unfold regrant
    rw [if_neg hpos, hkept, if_neg (add_memheapSize_ne_null a x)]
    exact mem_cons_self
  exact hroomy'.not_answered hmem hwraps hanswered

/-- A block is resized safely unless a sum wraps around. -/
theorem reallocSafe_iff (hp : p ∈ s.live) (hlt : n < 4294967296) :
    ReallocSafe area s p n ↔ n = 0 ∨ (¬RoundingWraps a n ∧
      ¬WrappedGrowth a s.state.memory (p - memheapSize a) (itemSize a n)) := by
  rcases hroomy.exists_item hp with ⟨x, rfl⟩
  rw [Nat.add_sub_cancel]
  constructor
  · intro hsafe
    by_contra hnot
    rw [not_or, not_and_or, not_not, not_not] at hnot
    rcases hnot.2 with hwraps | hwrapped
    · exact hroomy.not_reallocSafe_of_wrap hp hnot.1 hlt hwraps hsafe
    · exact hroomy.not_reallocSafe_of_wrappedGrowth hp hwrapped hsafe
  · intro hcases
    by_cases hzero : n = 0
    · refine ⟨(rtMemheapFree a s.state (x + memheapSize a), rtNull), ?_, .inl rfl, ?_⟩
      · unfold rtMemheapRealloc
        exact if_pos hzero
      · unfold regrant
        rw [if_pos hzero]
        exact (hroomy.of_free hp).wellFormed
    · rcases hcases.resolve_left hzero with ⟨hfits, hgrowth⟩
      rcases hroomy.holds.rtMemheapRealloc hp hgrowth with ⟨result, hresult, -⟩
      rcases hroomy.of_realloc hp hzero hgrowth hresult with ⟨hroomy', hroom⟩
      refine ⟨result, hresult, ?_, hroomy'.wellFormed⟩
      by_cases hnull : result.2 = rtNull
      · exact .inl hnull
      · rcases hroom hnull with ⟨y, hy, hle⟩
        exact .inr ⟨y, hy, (le_itemSize hfits).trans hle⟩

end

end Roomy

/-- In every run whose steps check the growth of items the heap is well formed, and the
requests which are answered as they should be are those for which no sum wraps, together with
those which find no item at all. -/
theorem requests_safe_iff (area : Area a)
    (hreach : (requestSystem area).Reachable (fun s call => call.GrowthChecked a s) s) :
    WellFormed area s ∧ ∃ bs fs, Represented area s bs fs ∧
        (∀ n : UInt32, AllocSafe area s n.toNat ↔
          ¬(RoundingWraps a n.toNat ∧ Serves a s.state area.heap fs miniAlloc)) ∧
        ∀ p ∈ s.live, ∀ n : UInt32, ReallocSafe area s p n.toNat ↔
          n.toNat = 0 ∨ (¬RoundingWraps a n.toNat ∧
            ¬WrappedGrowth a s.state.memory (p - memheapSize a) (itemSize a n.toNat)) := by
  have hroomy := Roomy.of_reachable hreach
  rcases hroomy.holds with ⟨bs, fs, hinv, hused⟩
  refine ⟨hroomy.wellFormed, bs, fs, hroomy.represented_of_inv hinv hused, ?_, ?_⟩
  · intro n
    exact hroomy.allocSafe_iff hinv n.toNat_lt
  · intro p hp n
    exact hroomy.reallocSafe_iff hp n.toNat_lt

theorem requests_safe_after_alloc : ∃ s, (requestSystem sampleArea).Reachable
        (fun s call => call.GrowthChecked wordAlign s) s ∧
      WellFormed sampleArea s ∧ AllocSafe sampleArea s 500 ∧
        ReallocSafe sampleArea s 0x20000018 4000000000 := by
  have hrun : (requestRun [.alloc 100]).map PoolState.live = some [0x20000018] := by
    decide +kernel
  rcases map_eq_some_iff.mp hrun with ⟨s, hs, hlive⟩
  have hreach := reachable_requestRun hs
  rcases requests_safe_iff sampleArea hreach with ⟨hformed, bs, fs, -, halloc, hrealloc⟩
  refine ⟨s, hreach, hformed, (halloc 500).mpr ?_, (hrealloc _ ?_ 4000000000).mpr ?_⟩
  · intro hwraps
    exact absurd hwraps.1 (by unfold RoundingWraps; decide)
  · rw [hlive]
    exact mem_singleton_self _
  · refine .inr ⟨by unfold RoundingWraps; decide, ?_⟩
    intro hwrapped
    exact absurd hwrapped.1 (by decide)

/-- With one block of 100 bytes, a request for `2^32 - 1` bytes is given 12 bytes, and growing
the block to `2^32 - 8` bytes breaks the lists. -/
theorem not_requests_safe : ∃ s, (requestSystem sampleArea).Reachable
        (fun s call => call.GrowthChecked wordAlign s) s ∧
      s.live = [0x20000018] ∧ ¬AllocSafe sampleArea s 0xffffffff ∧
        ¬ReallocSafe sampleArea s 0x20000018 0xfffffff8 := by
  have hrun : (requestRun [.alloc 100]).map (fun s => (s.live,
      (rtMemheapAlloc wordAlign s.state sampleArea.heap 0xffffffff).map Prod.snd,
      decide (WrappedGrowth wordAlign s.state.memory 0x20000000 (itemSize wordAlign 0xfffffff8)))) =
      some ([0x20000018], some 0x20000094, true) := by
    decide +kernel
  rcases map_eq_some_iff.mp hrun with ⟨s, hs, hview⟩
  rw [Prod.mk.injEq, Prod.mk.injEq, decide_eq_true_eq] at hview
  have hreach := reachable_requestRun hs
  have hroomy := Roomy.of_reachable hreach
  refine ⟨s, hreach, hview.1, ?_, ?_⟩
  · rcases hroomy.holds with ⟨bs, fs, hinv, hused⟩
    rw [hroomy.allocSafe_iff hinv (by decide), not_not]
    rcases map_eq_some_iff.mp hview.2.1 with ⟨result, hresult, hp⟩
    have hwraps : RoundingWraps wordAlign 0xffffffff := by
      unfold RoundingWraps
      decide
    have hnull := hinv.rtMemheapAlloc_eq_null_iff hresult
    rw [itemSize_of_wrap (by decide) hwraps] at hnull
    refine ⟨hwraps, not_not.mp fun hserves => ?_⟩
    have hzero := hnull.mpr hserves
    rw [hp] at hzero
    cases hzero
  · have hlive : 0x20000000 + memheapSize wordAlign ∈ s.live := by
      rw [hview.1]
      exact mem_singleton_self _
    exact hroomy.not_reallocSafe_of_wrappedGrowth hlive hview.2.2

end RtThread.MemHeap
