import RtThread.MemheapData

/-!
# Several memory heaps

With `RT_USING_MEMHEAP_AS_HEAP` the functions `rt_malloc` and `rt_realloc` work
on the system heap and on all heaps of the object container.  The heaps lie
apart, so a call on one of them leaves the representation of the others alone.
-/

namespace RtThread.MemHeap

open List Option Word

/-! ## The functions -/

def allocOthers (a : AlignSize) (systemHeap size : ℕ) : List ℕ → State → Option (State × ℕ)
  | [], s => some (s, rtNull)
  | heap :: rest, s =>
    if heap = systemHeap then allocOthers a systemHeap size rest s
    else
      match rtMemheapAlloc a s heap size with
      | none => none
      | some (s, ptr) =>
        if ptr ≠ rtNull then some (s, ptr) else allocOthers a systemHeap size rest s

def rtMalloc (a : AlignSize) (s : State) (systemHeap : ℕ) (container : List ℕ) (size : ℕ) :
    Option (State × ℕ) :=
  match rtMemheapAlloc a s systemHeap size with
  | none => none
  | some (s, ptr) =>
    if ptr = rtNull then allocOthers a systemHeap size container s else some (s, ptr)

def rtRealloc (a : AlignSize) (s : State) (systemHeap : ℕ) (container : List ℕ)
    (rmem newsize : ℕ) : Option (State × ℕ) :=
  if rmem = rtNull then rtMalloc a s systemHeap container newsize
  else
    let headerPtr := rmem - memheapSize a
    match rtMemheapRealloc a s (get s.memory .poolPtr headerPtr) rmem newsize with
    | none => none
    | some (s, newPtr) =>
      if newPtr = rtNull ∧ newsize ≠ 0 then
        match rtMalloc a s systemHeap container newsize with
        | none => none
        | some (s, newPtr) =>
          if newPtr ≠ rtNull then
            let oldsize := memitemSize a s.memory headerPtr
            let m := s.memory.copy newPtr rmem (if newsize > oldsize then oldsize else newsize)
            some ({ s with memory := m }, newPtr)
          else some (s, newPtr)
      else some (s, newPtr)

/-! ## Changes of one heap -/

variable {a : AlignSize} {A B : Area a} {heaps : List (Area a)} {s s' : State}
  {bs fs before after : List ℕ} {m m' : Memory} {x y i j k size newsize : ℕ}
  {used used' : ℕ → Prop}

structure Local (A : Area a) (s s' : State) : Prop where
  memory : ∀ b, ¬A.Covers b → s'.memory b = s.memory b
  heaps : ∀ k, k ≠ A.heap → s'.heaps k = s.heaps k

structure Area.Apart (A B : Area a) : Prop where
  heap : A.heap ≠ B.heap
  head : A.head + 24 ≤ B.head ∨ B.head + 24 ≤ A.head
  headPool : A.head + 24 ≤ B.start ∨ B.start + B.size ≤ A.head
  poolHead : B.head + 24 ≤ A.start ∨ A.start + A.size ≤ B.head
  pool : A.start + A.size ≤ B.start ∨ B.start + B.size ≤ A.start

namespace Area.Apart

theorem symm (hapart : A.Apart B) : B.Apart A :=
  ⟨hapart.heap.symm, hapart.head.symm, hapart.poolHead, hapart.headPool, hapart.pool.symm⟩

theorem not_covers (hapart : A.Apart B) {b : ℕ} (hb : B.Covers b) : ¬A.Covers b := by
  have hpoolA := A.poolSize_le
  have hpoolB := B.poolSize_le
  rcases hapart with ⟨-, hhead, hheadPool, hpoolHead, hpool⟩
  unfold Covers at *
  lia

instance : Std.Symm (α := Area a) Area.Apart := ⟨fun _ _ hapart => hapart.symm⟩

end Area.Apart

def Area.Contains (A : Area a) (i : ℕ) : Prop := A.start ≤ i ∧ i < A.tail

theorem Area.Contains.covers (hcontains : A.Contains i) : A.Covers i := by
  have htail := A.tail_eq
  unfold Area.Contains at hcontains
  unfold Area.Covers
  omega

theorem PoolInv.contains (hinv : PoolInv A s bs fs) (hx : x ∈ bs) : A.Contains x := by
  have hsize := twentyFour_le_memheapSize a
  have hlow := hinv.ordered.start_le hx
  have hhigh := hinv.ordered.le_tail hx
  unfold Area.Contains
  omega

theorem PoolInv.of_local (hinv : PoolInv B s bs fs) (hapart : A.Apart B) (hlocal : Local A s s') :
    PoolInv B s' bs fs := by
  have hsize := twentyFour_le_memheapSize a
  have hheap := hlocal.heaps B.heap hapart.heap.symm
  have hkeeps : KeepsFields s.memory s'.memory (itemSet B.head B.tail bs) [] := by
    intro i hi f _
    have hoffset := offset_le f
    have hplace := hinv.ordered.covered hi
    apply Memory.load_congr
    intro b hlow hhigh
    apply hlocal.memory
    apply hapart.not_covers
    unfold Area.Covers
    lia
  have hmemory := hinv.of_keeps hkeeps
  constructor
  · exact hmemory.ordered
  · exact hmemory.rings
  · exact hmemory.free_iff
  · exact hmemory.tail_used
  · exact hmemory.noFreePair
  · exact hmemory.poolPtr_eq
  · rw [hheap]
    exact hmemory.freeList_eq
  · rw [hheap]
    exact hmemory.poolSize_eq
  · rw [hheap]
    exact hmemory.available_eq
  · rw [hheap]
    exact hmemory.maxUsed_le

theorem Holds.of_local (hholds : Holds B s used) (hapart : A.Apart B) (hlocal : Local A s s') :
    Holds B s' used := by
  rcases hholds with ⟨bs, fs, hinv, hused⟩
  refine ⟨bs, fs, hinv.of_local hapart hlocal, ?_⟩
  intro i
  rw [← hused i]
  apply and_congr_right
  intro hi
  have hkeeps : get s'.memory .magic i = get s.memory .magic i := by
    have hsize := twentyFour_le_memheapSize a
    have hplace := hinv.ordered.covered (item_mem hi)
    apply Memory.load_congr
    intro b hlow hhigh
    apply hlocal.memory
    apply hapart.not_covers
    unfold Area.Covers
    simp only [Field.offset] at hlow hhigh
    omega
  rw [isUsed_congr hkeeps]

theorem Holds.kept_of_local (hholds : Holds B s used) (hapart : A.Apart B)
    (hlocal : Local A s s') (hj : used j) : Kept a s.memory s'.memory j := by
  have hsize := twentyFour_le_memheapSize a
  rcases hholds with ⟨bs, fs, hinv, hused⟩
  have hjbs := ((hused j).mpr hj).1
  rcases append_of_mem hjbs with ⟨before, after, hbs⟩
  rcases hinv.rings.around hinv.ordered hbs with ⟨-, -, -, -, -, hle⟩
  have hlow := hinv.ordered.start_le hjbs
  have hhigh := hinv.ordered.le_tail hjbs
  have htail := B.tail_eq
  have hbyte : ∀ b, j ≤ b → b < B.tail → s'.memory b = s.memory b := by
    intro b hjb hbt
    apply hlocal.memory
    apply hapart.not_covers
    unfold Area.Covers
    lia
  constructor
  · apply Memory.load_congr
    intro b hb hb'
    simp only [Field.offset] at hb hb'
    apply hbyte <;> lia
  · intro b hb hb'
    apply hbyte <;> lia

/-! ## The control blocks -/

theorem State.update_heaps_of_ne (s : State) (m : Memory) (h : RtMemheap) {heap : ℕ}
    (hk : k ≠ heap) : (s.update heap m h).heaps k = s.heaps k := by
  simp [State.update, hk]

theorem rtMemheapAlloc_heaps {heap : ℕ} {result : State × ℕ}
    (hresult : rtMemheapAlloc a s heap size = some result) (hk : k ≠ heap) :
    result.1.heaps k = s.heaps k := by
  unfold rtMemheapAlloc at hresult
  dsimp only at hresult
  split at hresult
  · split at hresult
    · cases hresult
    · split at hresult
      · rw [← some.inj hresult]
        unfold takeItem
        split <;> exact State.update_heaps_of_ne s _ _ hk
      · rw [← some.inj hresult]
  · rw [← some.inj hresult]

theorem rtMemheapFree_heaps {p : ℕ} (hk : k ≠ get s.memory .poolPtr (p - memheapSize a)) :
    (rtMemheapFree a s p).heaps k = s.heaps k := by
  unfold rtMemheapFree
  split
  · rfl
  · exact State.update_heaps_of_ne s _ _ hk

section

variable (hholds : Holds A s used)
include hholds

theorem Holds.poolPtr_eq (hx : used x) : get s.memory .poolPtr x = A.heap := by
  rcases hholds with ⟨bs, fs, hinv, hused⟩
  exact hinv.poolPtr_eq x ((hused x).mpr hx).1

theorem Holds.rtMemheapAlloc_local {result : State × ℕ}
    (hresult : MemHeap.rtMemheapAlloc a s A.heap size = some result) : Local A s result.1 where
  memory := (hholds.rtMemheapAlloc_framed hresult).outside
  heaps _ hk := rtMemheapAlloc_heaps hresult hk

theorem Holds.rtMemheapFree_local (hx : used x) :
    Local A s (MemHeap.rtMemheapFree a s (x + memheapSize a)) where
  memory := (hholds.rtMemheapFree_framed hx).outside
  heaps k hk := by
    apply rtMemheapFree_heaps
    rw [Nat.add_sub_cancel, hholds.poolPtr_eq hx]
    exact hk

theorem Holds.moveItem_heaps {oldsize : ℕ} {result : State × ℕ}
    (hx : used x) (hsize : size + a.bytes ≤ 4294967296)
    (hresult : MemHeap.moveItem a s A.heap (x + memheapSize a) oldsize size = some result)
    (hk : k ≠ A.heap) : result.1.heaps k = s.heaps k := by
  have halign := le_rtAlign a hsize
  have hitem := (itemSize_spec a size).1
  rcases hholds.rtMemheapAlloc size with ⟨⟨s₁, p⟩, halloc, hcases⟩
  have hfirst := rtMemheapAlloc_heaps halloc hk
  unfold MemHeap.moveItem at hresult
  rw [halloc] at hresult
  dsimp only at hresult
  rcases hcases with hnull | ⟨y, hp, -, hholds₁, hroom⟩
  · rw [Prod.mk.injEq] at hnull
    rw [if_neg (not_not_intro hnull.2), some.injEq] at hresult
    rw [← hresult]
    exact hfirst
  · dsimp only at hp hholds₁ hroom
    rw [hp, if_pos (add_memheapSize_ne_null a y), some.injEq] at hresult
    generalize hcount : (if oldsize < size then oldsize else size) = count at *
    have hcountLe : count ≤ size := by
      rw [← hcount]
      split_ifs <;> omega
    rcases hholds₁.copy_within (.inl rfl) (x + memheapSize a) count (by omega)
      with ⟨hholds₂, -, -, -⟩
    rw [← hresult]
    exact ((hholds₂.rtMemheapFree_local (.inr hx)).heaps k hk).trans hfirst

theorem Holds.rtMemheapRealloc_local {result : State × ℕ}
    (hx : used x) (hpos : newsize ≠ 0) (hgrowth : ¬WrappedGrowth a s.memory x (itemSize a newsize))
    (hresult : MemHeap.rtMemheapRealloc a s A.heap (x + memheapSize a) newsize = some result) :
    Local A s result.1 where
  memory := (hholds.rtMemheapRealloc_data hx hpos hgrowth hresult).1.outside
  heaps k hk := by
    have hround := itemSize_add_le a newsize
    unfold MemHeap.rtMemheapRealloc at hresult
    simp only [if_neg (add_memheapSize_ne_null a x), if_neg hpos] at hresult
    split at hresult
    · split at hresult
      · rw [← some.inj hresult]
        exact State.update_heaps_of_ne s _ _ hk
      · exact hholds.moveItem_heaps hx hround hresult hk
    · split at hresult
      · rw [← some.inj hresult]
      · rw [← some.inj hresult]
        exact State.update_heaps_of_ne s _ _ hk

end

/-! ## All heaps -/

/-- Every block in use lies in one of the pools. -/
structure Held (heaps : List (Area a)) (s : State) (used : ℕ → Prop) : Prop where
  apart : heaps.Pairwise Area.Apart
  holds : ∀ A ∈ heaps, Holds A s fun i => used i ∧ A.Contains i
  owner : ∀ i, used i → ∃ A ∈ heaps, A.Contains i

theorem Holds.congr_used (hholds : Holds A s used) (hiff : ∀ i, used i ↔ used' i) :
    Holds A s used' := by
  rcases hholds with ⟨bs, fs, hinv, hused⟩
  exact ⟨bs, fs, hinv, fun i => (hused i).trans (hiff i)⟩

theorem Holds.contains (hholds : Holds A s used) (hx : used x) : A.Contains x := by
  rcases hholds with ⟨bs, fs, hinv, hused⟩
  exact hinv.contains ((hused x).mpr hx).1

namespace Held

section

variable (hheld : Held heaps s used)
include hheld

theorem apart_of_ne (hA : A ∈ heaps) (hB : B ∈ heaps) (hne : A ≠ B) : A.Apart B :=
  hheld.apart.forall hA hB hne

theorem eq_of_contains (hA : A ∈ heaps) (hB : B ∈ heaps)
    (hAi : A.Contains i) (hBi : B.Contains i) : A = B := by
  by_contra hne
  exact (hheld.apart_of_ne hA hB hne).not_covers hBi.covers hAi.covers

theorem congr_used (hiff : ∀ i, used i ↔ used' i) : Held heaps s used' where
  apart := hheld.apart
  holds A hA := (hheld.holds A hA).congr_used fun i => and_congr_left fun _ => hiff i
  owner i hi := hheld.owner i ((hiff i).mpr hi)

theorem of_local (hA : A ∈ heaps) (hlocal : Local A s s')
    (hholds : Holds A s' fun i => used' i ∧ A.Contains i)
    (hother : ∀ i, ¬A.Contains i → (used' i ↔ used i)) : Held heaps s' used' where
  apart := hheld.apart
  holds B hB := by
    by_cases heq : A = B
    · exact heq ▸ hholds
    · have hapart := hheld.apart_of_ne hA hB heq
      apply ((hheld.holds B hB).of_local hapart hlocal).congr_used
      intro i
      apply and_congr_left
      intro hBi
      exact (hother i fun hAi => heq (hheld.eq_of_contains hA hB hAi hBi)).symm
  owner i hi := by
    by_cases hAi : A.Contains i
    · exact ⟨A, hA, hAi⟩
    · exact hheld.owner i ((hother i hAi).mp hi)

theorem kept_of_local (hA : A ∈ heaps) (hlocal : Local A s s')
    (hj : used j) (hown : A.Contains j → Kept a s.memory s'.memory j) :
    Kept a s.memory s'.memory j := by
  rcases hheld.owner j hj with ⟨B, hB, hBj⟩
  by_cases heq : A = B
  · exact hown (heq ▸ hBj)
  · exact (hheld.holds B hB).kept_of_local (hheld.apart_of_ne hA hB heq) hlocal ⟨hj, hBj⟩

end

end Held

def Serviceable (A : Area a) (s : State) (size : ℕ) : Prop :=
  ∃ bs fs, PoolInv A s bs fs ∧ Serves a s A.heap fs (itemSize a size)

/-- A new item `y` has been handed out. -/
structure Served (heaps : List (Area a)) (s : State) (used : ℕ → Prop) (size : ℕ)
    (result : State × ℕ) (y : ℕ) : Prop where
  ptr : result.2 = y + memheapSize a
  fresh : ¬used y
  held : Held heaps result.1 fun i => i = y ∨ used i
  room : y + memheapSize a + itemSize a size ≤ get result.1.memory .next y
  kept : ∀ j, used j → Kept a s.memory result.1.memory j

theorem Holds.serviceable_iff {result : State × ℕ} (hholds : Holds A s used)
    (hresult : MemHeap.rtMemheapAlloc a s A.heap size = some result) :
    result.2 ≠ rtNull ↔ Serviceable A s size := by
  rcases hholds with ⟨bs, fs, hinv, -⟩
  constructor
  · intro hne
    have hserves : Serves a s A.heap fs (itemSize a size) :=
      not_not.mp fun hnot => hne ((hinv.rtMemheapAlloc_eq_null_iff hresult).mpr hnot)
    exact ⟨bs, fs, hinv, hserves⟩
  · rintro ⟨bs', fs', hinv', hserves⟩ hnull
    exact (hinv'.rtMemheapAlloc_eq_null_iff hresult).mp hnull hserves

namespace Held

theorem rtMemheapAlloc (hheld : Held heaps s used) (hA : A ∈ heaps) (size : ℕ) :
    ∃ result, rtMemheapAlloc a s A.heap size = some result ∧
      ((result = (s, rtNull) ∧ ¬Serviceable A s size) ∨
        (Serviceable A s size ∧ ∃ y, Served heaps s used size result y)) := by
  have hholds := hheld.holds A hA
  rcases hholds.rtMemheapAlloc size with ⟨result, hresult, hcases⟩
  have hserviceable := hholds.serviceable_iff hresult
  refine ⟨result, hresult, ?_⟩
  rcases hcases with hnull | ⟨y, hp, hfresh, hholds', hroom⟩
  · refine .inl ⟨hnull, fun hserves => ?_⟩
    exact hserviceable.mpr hserves (congrArg Prod.snd hnull)
  · have hne : result.2 ≠ rtNull := by
      rw [hp]
      exact add_memheapSize_ne_null a y
    have hlocal := hholds.rtMemheapAlloc_local hresult
    have hframed := hholds.rtMemheapAlloc_framed hresult
    have hAy : A.Contains y := hholds'.contains (.inl rfl)
    refine .inr ⟨hserviceable.mp hne, y, hp, fun hy => hfresh ⟨hy, hAy⟩, ?_, hroom, ?_⟩
    · apply hheld.of_local hA hlocal
      · apply hholds'.congr_used
        intro i
        constructor
        · rintro (hi | hi)
          · exact ⟨.inl hi, hi ▸ hAy⟩
          · exact ⟨.inr hi.1, hi.2⟩
        · rintro ⟨hi | hi, hAi⟩
          · exact .inl hi
          · exact .inr ⟨hi, hAi⟩
      · intro i hAi
        constructor
        · rintro (hi | hi)
          · exact absurd (hi ▸ hAy) hAi
          · exact hi
        · exact .inr
    · intro j hj
      exact hheld.kept_of_local hA hlocal hj fun hAj => hframed.kept j ⟨hj, hAj⟩

theorem rtMemheapFree (hheld : Held heaps s used) (hx : used x) :
    Held heaps (rtMemheapFree a s (x + memheapSize a)) (fun i => used i ∧ i ≠ x) ∧
      ∀ j, used j → j ≠ x →
        Kept a s.memory (MemHeap.rtMemheapFree a s (x + memheapSize a)).memory j := by
  rcases hheld.owner x hx with ⟨A, hA, hAx⟩
  have hholds := hheld.holds A hA
  have hlocal := hholds.rtMemheapFree_local ⟨hx, hAx⟩
  have hframed := hholds.rtMemheapFree_framed ⟨hx, hAx⟩
  constructor
  · apply hheld.of_local hA hlocal
    · apply (hholds.rtMemheapFree ⟨hx, hAx⟩).congr_used
      intro i
      constructor
      · rintro ⟨⟨hi, hAi⟩, hne⟩
        exact ⟨⟨hi, hne⟩, hAi⟩
      · rintro ⟨⟨hi, hne⟩, hAi⟩
        exact ⟨⟨hi, hAi⟩, hne⟩
    · intro i hAi
      constructor
      · exact And.left
      · intro hi
        exact ⟨hi, fun heq => hAi (heq ▸ hAx)⟩
  · intro j hj hne
    exact hheld.kept_of_local hA hlocal hj fun hAj => hframed.kept j ⟨⟨hj, hAj⟩, hne⟩

theorem write_within (hheld : Held heaps s used) (hy : used y)
    (hwithin : ∀ b, b < y + memheapSize a ∨ get s.memory .next y ≤ b → m' b = s.memory b) :
    Held heaps { s with memory := m' } used ∧ get m' .next y = get s.memory .next y ∧
      ∀ j, used j → j ≠ y → Kept a s.memory m' j := by
  rcases hheld.owner y hy with ⟨A, hA, hAy⟩
  rcases (hheld.holds A hA).write_within ⟨hy, hAy⟩ hwithin with ⟨hholds, hnext, hframed⟩
  have hlocal : Local A s { s with memory := m' } := ⟨hframed.outside, fun _ _ => rfl⟩
  refine ⟨hheld.of_local hA hlocal hholds fun _ _ => Iff.rfl, hnext, ?_⟩
  intro j hj hne
  exact hheld.kept_of_local hA hlocal hj fun hAj => hframed.kept j ⟨⟨hj, hAj⟩, hne⟩

end Held

/-! ## `rt_malloc` -/

namespace Held

theorem allocOthers (hheld : Held heaps s used) (systemHeap size : ℕ) (container : List (Area a))
    (hsub : ∀ A ∈ container, A ∈ heaps) :
    ∃ result, allocOthers a systemHeap size (container.map Area.heap) s = some result ∧
      ((result = (s, rtNull) ∧ ∀ A ∈ container, A.heap ≠ systemHeap → ¬Serviceable A s size) ∨
        ((∃ A ∈ container, Serviceable A s size) ∧ ∃ y, Served heaps s used size result y)) := by
  induction container with
  | nil => exact ⟨_, rfl, .inl ⟨rfl, nofun⟩⟩
  | cons A rest ih =>
    rcases ih fun B hB => hsub B (mem_cons_of_mem A hB) with ⟨result, hresult, hcases⟩
    rw [map_cons, MemHeap.allocOthers]
    have hrest : (result = (s, rtNull) ∧ ∀ B ∈ rest, B.heap ≠ systemHeap → ¬Serviceable B s size) ∨
        ((∃ B ∈ rest, Serviceable B s size) ∧ ∃ y, Served heaps s used size result y) →
        (A.heap ≠ systemHeap → ¬Serviceable A s size) →
        (result = (s, rtNull) ∧ ∀ B ∈ A :: rest, B.heap ≠ systemHeap → ¬Serviceable B s size) ∨
        ((∃ B ∈ A :: rest, Serviceable B s size) ∧ ∃ y, Served heaps s used size result y) := by
      rintro (⟨hnull, hnone⟩ | ⟨⟨B, hB, hserves⟩, hserved⟩) hfirst
      · exact .inl ⟨hnull, forall_mem_cons.mpr ⟨hfirst, hnone⟩⟩
      · exact .inr ⟨⟨B, mem_cons_of_mem A hB, hserves⟩, hserved⟩
    by_cases hsystem : A.heap = systemHeap
    · rw [if_pos hsystem]
      exact ⟨result, hresult, hrest hcases fun hne => absurd hsystem hne⟩
    · rw [if_neg hsystem]
      rcases hheld.rtMemheapAlloc (hsub A mem_cons_self) size
        with ⟨first, hfirst, ⟨hnull, hnone⟩ | ⟨hserves, y, hserved⟩⟩
      · rw [hfirst, hnull]
        exact ⟨result, hresult, hrest hcases fun _ => hnone⟩
      · rw [hfirst]
        have hne : first.2 ≠ rtNull := by
          rw [hserved.ptr]
          exact add_memheapSize_ne_null a y
        refine ⟨first, ?_, .inr ⟨⟨A, mem_cons_self, hserves⟩, y, hserved⟩⟩
        dsimp only
        rw [if_pos hne]

theorem rtMalloc {system : Area a} (hheld : Held heaps s used) (hsystem : system ∈ heaps)
    (size : ℕ) : ∃ result, rtMalloc a s system.heap (heaps.map Area.heap) size = some result ∧
      ((result = (s, rtNull) ∧ ∀ A ∈ heaps, ¬Serviceable A s size) ∨
        ((∃ A ∈ heaps, Serviceable A s size) ∧ ∃ y, Served heaps s used size result y)) := by
  unfold MemHeap.rtMalloc
  rcases hheld.rtMemheapAlloc hsystem size
    with ⟨first, hfirst, ⟨hnull, hnone⟩ | ⟨hserves, y, hserved⟩⟩
  · rw [hfirst, hnull]
    rcases hheld.allocOthers system.heap size heaps fun _ hA => hA with ⟨result, hresult, hcases⟩
    refine ⟨result, hresult, hcases.imp_left ?_⟩
    rintro ⟨hnull', hothers⟩
    refine ⟨hnull', ?_⟩
    intro A hA
    by_cases heq : A = system
    · exact heq ▸ hnone
    · exact hothers A hA (hheld.apart_of_ne hA hsystem heq).heap
  · rw [hfirst]
    have hne : first.2 ≠ rtNull := by
      rw [hserved.ptr]
      exact add_memheapSize_ne_null a y
    refine ⟨first, ?_, .inr ⟨⟨system, hsystem, hserves⟩, y, hserved⟩⟩
    dsimp only
    rw [if_neg hne]

end Held

/-! ## `rt_realloc` -/

def OwnerFails (A : Area a) (s : State) (x n : ℕ) : Prop :=
  memitemSize a s.memory x < itemSize a n ∧ ¬(isUsed s.memory (get s.memory .next x) = false ∧
      add32 (itemSize a n) miniAlloc <
        add32 (memitemSize a s.memory (get s.memory .next x)) (memitemSize a s.memory x)) ∧
    ¬Serviceable A s (itemSize a n)

theorem Holds.ownerFails_iff {result : State × ℕ} (hholds : Holds A s used) (hpos : newsize ≠ 0)
    (hresult : MemHeap.rtMemheapRealloc a s A.heap (x + memheapSize a) newsize = some result) :
    result.2 = rtNull ↔ OwnerFails A s x newsize := by
  have hptr := add_memheapSize_ne_null a x
  unfold MemHeap.rtMemheapRealloc at hresult
  simp only [if_neg hptr, if_neg hpos, Nat.add_sub_cancel, Bool.not_eq_true'] at hresult
  by_cases hgrow : itemSize a newsize > memitemSize a s.memory x
  · rw [if_pos hgrow] at hresult
    by_cases hroom : isUsed s.memory (get s.memory .next x) = false ∧
        add32 (memitemSize a s.memory (get s.memory .next x)) (memitemSize a s.memory x) >
          add32 (itemSize a newsize) miniAlloc
    · rw [if_pos hroom, some.injEq] at hresult
      rw [← hresult]
      exact iff_of_false hptr fun hfails => hfails.2.1 hroom
    · rw [if_neg hroom] at hresult
      unfold MemHeap.moveItem at hresult
      rcases hholds.rtMemheapAlloc (itemSize a newsize) with ⟨first, hfirst, -⟩
      have hserviceable := hholds.serviceable_iff hfirst
      rw [hfirst] at hresult
      dsimp only at hresult
      have hsame : result.2 = first.2 := by
        split at hresult <;> rw [← some.inj hresult]
      rw [hsame]
      constructor
      · intro hnull
        exact ⟨hgrow, hroom, fun hserves => hserviceable.mpr hserves hnull⟩
      · rintro ⟨-, -, hnone⟩
        exact not_not.mp fun hne => hnone (hserviceable.mp hne)
  · rw [if_neg hgrow] at hresult
    have hsame : result.2 = x + memheapSize a := by
      split at hresult <;> rw [← some.inj hresult]
    rw [hsame]
    exact iff_of_false hptr fun hfails => hgrow hfails.1

def CopiedTo (a : AlignSize) (m m' : Memory) (x n q : ℕ) : Prop :=
  ∀ k < n, x + memheapSize a + k < get m .next x → m' (q + k) = m (x + memheapSize a + k)

structure Moved (heaps : List (Area a)) (s : State) (used : ℕ → Prop) (x n : ℕ)
    (result : State × ℕ) : Prop where
  ptr : ∃ y, result.2 = y + memheapSize a ∧ (y = x ∨ ¬used y)
  held : Held heaps result.1 fun i => i + memheapSize a = result.2 ∨ (used i ∧ i ≠ x)
  data : CopiedTo a s.memory result.1.memory x n result.2
  kept : ∀ j, used j → j ≠ x → Kept a s.memory result.1.memory j

structure LeftBehind (heaps : List (Area a)) (s : State) (used : ℕ → Prop) (x n : ℕ)
    (result : State × ℕ) : Prop where
  ptr : ∃ y, result.2 = y + memheapSize a ∧ ¬used y
  held : Held heaps result.1 fun i => i + memheapSize a = result.2 ∨ used i
  data : CopiedTo a s.memory result.1.memory x n result.2
  kept : ∀ j, used j → Kept a s.memory result.1.memory j

namespace Held

theorem leftBehind_of_served {result : State × ℕ} {n count : ℕ} (hx : used x)
    (hserved : Served heaps s used n result y) (hroom : count ≤ itemSize a n)
    (hold : ∀ k < n, x + memheapSize a + k < get s.memory .next x → k < count) :
    LeftBehind heaps s used x n
      ({ result.1 with
          memory := result.1.memory.copy result.2 (x + memheapSize a) count },
        result.2) := by
  have hspace := hserved.room
  have hkeptx := hserved.kept x hx
  have hwithin : ∀ b, b < y + memheapSize a ∨ get result.1.memory .next y ≤ b →
      result.1.memory.copy result.2 (x + memheapSize a) count b = result.1.memory b := by
    intro b hb
    have hptr := hserved.ptr
    have hout : ¬(result.2 ≤ b ∧ b < result.2 + count) := by lia
    exact if_neg hout
  rcases hserved.held.write_within (.inl rfl) hwithin with ⟨hheld, -, hkept⟩
  constructor
  · exact ⟨y, hserved.ptr, hserved.fresh⟩
  · apply hheld.congr_used
    intro i
    rw [hserved.ptr, Nat.add_right_cancel_iff]
  · intro k hk hkx
    have hin : result.2 ≤ result.2 + k ∧ result.2 + k < result.2 + count := by
      have := hold k hk hkx
      lia
    dsimp only
    unfold Memory.copy
    rw [if_pos hin, Nat.add_sub_cancel_left]
    exact hkeptx.data _ (by lia) hkx
  · intro j hj
    have hjy : j ≠ y := fun heq => hserved.fresh (heq ▸ hj)
    exact (hserved.kept j hj).trans (hkept j (.inr hj) hjy)

theorem moved_of_rtMemheapRealloc {result : State × ℕ} (hheld : Held heaps s used)
    (hx : used x) (hA : A ∈ heaps) (hAx : A.Contains x) (hpos : newsize ≠ 0)
    (hle : newsize ≤ itemSize a newsize)
    (hgrowth : ¬WrappedGrowth a s.memory x (itemSize a newsize))
    (hresult : rtMemheapRealloc a s A.heap (x + memheapSize a) newsize = some result)
    (hne : result.2 ≠ rtNull) : Moved heaps s used x newsize result := by
  have hholds := hheld.holds A hA
  have hlocal := hholds.rtMemheapRealloc_local ⟨hx, hAx⟩ hpos hgrowth hresult
  rcases hholds.rtMemheapRealloc_data ⟨hx, hAx⟩ hpos hgrowth hresult with ⟨hframed, hcarried⟩
  rcases hcarried hne with ⟨y, hp, hcarried⟩
  rcases hholds.rtMemheapRealloc ⟨hx, hAx⟩ hgrowth with ⟨result', hresult', hresized⟩
  rw [hresult, some.injEq] at hresult'
  subst hresult'
  have hused : (y = x ∨ ¬(used y ∧ A.Contains y)) ∧
      Holds A result.1 fun i => i = y ∨ ((used i ∧ A.Contains i) ∧ i ≠ x) := by
    cases hresized with
    | released hzero | failed => contradiction
    | kept _ hkept =>
      have hyx : y = x := Nat.add_right_cancel hp.symm
      refine ⟨.inl hyx, hkept.congr_used fun i => ?_⟩
      by_cases hix : i = x
      · simp [hix, hyx, hx, hAx]
      · simp [hix, hyx]
    | moved _ hfresh hmoved =>
      rw [Nat.add_right_cancel hp] at hfresh hmoved
      exact ⟨.inr hfresh, hmoved⟩
  rcases hused with ⟨hplace, hused⟩
  have hAy : A.Contains y := hused.contains (.inl rfl)
  constructor
  · exact ⟨y, hp, hplace.imp_right fun hfresh hy => hfresh ⟨hy, hAy⟩⟩
  · simp only [hp]
    apply hheld.of_local hA hlocal
    · apply hused.congr_used
      intro i
      rw [Nat.add_right_cancel_iff]
      constructor
      · rintro (hi | ⟨⟨hi, hAi⟩, hix⟩)
        · exact ⟨.inl hi, hi ▸ hAy⟩
        · exact ⟨.inr ⟨hi, hix⟩, hAi⟩
      · rintro ⟨hi | ⟨hi, hix⟩, hAi⟩
        · exact .inl hi
        · exact .inr ⟨⟨hi, hAi⟩, hix⟩
    · intro i hAi
      rw [Nat.add_right_cancel_iff]
      constructor
      · rintro (hi | hi)
        · exact absurd (hi ▸ hAy) hAi
        · exact hi.1
      · intro hi
        exact .inr ⟨hi, fun heq => hAi (heq ▸ hAx)⟩
  · intro k hk hkx
    rw [hp]
    exact hcarried.data k (by omega) hkx
  · intro j hj hjx
    exact hheld.kept_of_local hA hlocal hj fun hAj => hframed.kept j ⟨⟨hj, hAj⟩, hjx⟩

theorem rtRealloc {system : Area a} {n : ℕ} (hheld : Held heaps s used)
    (hsystem : system ∈ heaps) (hx : used x) (hA : A ∈ heaps) (hAx : A.Contains x)
    (hpos : n ≠ 0) (hle : n ≤ itemSize a n) (hgrowth : ¬WrappedGrowth a s.memory x (itemSize a n)) :
    ∃ result, rtRealloc a s system.heap (heaps.map Area.heap) (x + memheapSize a) n = some result ∧
      ((result.2 ≠ rtNull ∧ ¬OwnerFails A s x n ∧ Moved heaps s used x n result) ∨
        (result.2 ≠ rtNull ∧ OwnerFails A s x n ∧ (∃ B ∈ heaps, Serviceable B s n) ∧
          LeftBehind heaps s used x n result) ∨
        (result = (s, rtNull) ∧ ∀ B ∈ heaps, ¬Serviceable B s n)) := by
  have hholds := hheld.holds A hA
  rcases hholds.rtMemheapRealloc ⟨hx, hAx⟩ hgrowth with ⟨first, hfirst, hresized⟩
  have hfails := hholds.ownerFails_iff hpos hfirst
  unfold MemHeap.rtRealloc
  simp only [if_neg (add_memheapSize_ne_null a x), Nat.add_sub_cancel,
    hholds.poolPtr_eq ⟨hx, hAx⟩, hfirst]
  by_cases hnull : first.2 = rtNull
  · have hstate : first.1 = s := by
      cases hresized with
      | released hzero => contradiction
      | failed => rfl
      | kept => exact absurd hnull (add_memheapSize_ne_null a x)
      | moved => exact absurd hnull (add_memheapSize_ne_null a _)
    rw [if_pos ⟨hnull, hpos⟩, hstate]
    rcases hheld.rtMalloc hsystem n with ⟨⟨s₁, q⟩, hmalloc, hcases⟩
    rw [hmalloc]
    dsimp only
    rcases hcases with ⟨hresult, hnone⟩ | ⟨hserves, y, hserved⟩
    · rw [Prod.mk.injEq] at hresult
      rw [hresult.1, hresult.2, if_neg (not_not_intro rfl)]
      exact ⟨_, rfl, .inr (.inr ⟨rfl, hnone⟩)⟩
    · have hq : q = y + memheapSize a := hserved.ptr
      have hne : q ≠ rtNull := hq ▸ add_memheapSize_ne_null a y
      have holdsize : memitemSize a s₁.memory x = memitemSize a s.memory x := by
        have hkept := (hserved.kept x hx).next
        unfold memitemSize
        rw [hkept]
      have hsizex := (hholds.memitemSize_eq ⟨hx, hAx⟩).1
      rw [if_pos hne, holdsize]
      refine ⟨_, rfl, .inr (.inl ⟨hne, hfails.mp hnull, hserves, ?_⟩)⟩
      apply leftBehind_of_served hx hserved
      · split_ifs <;> omega
      · intro k hk hkx
        split_ifs <;> omega
  · rw [if_neg fun hboth => hnull hboth.1]
    refine ⟨_, rfl, .inl ⟨hnull, fun hfail => hnull (hfails.mpr hfail), ?_⟩⟩
    exact hheld.moved_of_rtMemheapRealloc hx hA hAx hpos hle hgrowth hfirst hnull

end Held

/-! ## The items of a heap are those in its memory -/

theorem PoolInv.items_linked (hinv : PoolInv A s bs fs) :
    LinkedTo (get s.memory .next) A.tail A.start bs := by
  have hsize := twentyFour_le_memheapSize a
  apply LinkedTo.of_isChain
  · exact (hinv.rings.chain hinv.ordered).imp fun _ _ hxy => hxy.1
  · intro hmem
    have := hinv.ordered.le_tail hmem
    omega
  · rw [head?_append, hinv.ordered.first]
    rfl

theorem Holds.unique (hholds : Holds A s used) (hholds' : Holds A s used') (i : ℕ) :
    used i ↔ used' i := by
  rcases hholds with ⟨bs, fs, hinv, hused⟩
  rcases hholds' with ⟨bs', fs', hinv', hused'⟩
  rw [← hused i, ← hused' i, hinv.items_linked.unique hinv'.items_linked]

theorem Held.unique (hheld : Held heaps s used) (hheld' : Held heaps s used') (i : ℕ) :
    used i ↔ used' i := by
  constructor
  · intro hi
    rcases hheld.owner i hi with ⟨A, hA, hAi⟩
    exact ((hheld.holds A hA).unique (hheld'.holds A hA) i |>.mp ⟨hi, hAi⟩).1
  · intro hi
    rcases hheld'.owner i hi with ⟨A, hA, hAi⟩
    exact ((hheld.holds A hA).unique (hheld'.holds A hA) i |>.mpr ⟨hi, hAi⟩).1

/-! ## Registering a heap -/

theorem Edits.then {E : Set ℕ} {f : Field} {v : ℕ} (hedits : Edits E Set.univ m m')
    (hi : i ∈ E) : Edits E Set.univ m (set m' f i v) :=
  hedits.step hi fun _ => Set.mem_univ i

theorem Edits.initItem {E : Set ℕ} {heap : ℕ} (hedits : Edits E Set.univ m m') (hi : i ∈ E) :
    Edits E Set.univ m (MemHeap.initItem m' heap i) :=
  (((((hedits.then hi).then hi).then hi).then hi).then hi).then hi

theorem rtMemheapInit_local (A : Area a) (s : State) :
    Local A s (rtMemheapInit a s A.heap A.head A.start A.size) where
  memory := by
    have hheadMem : A.head ∈ itemSet A.head A.tail [A.start] := by simp [itemSet]
    have hstartMem : A.start ∈ itemSet A.head A.tail [A.start] := by simp [itemSet]
    have htailMem : A.tail ∈ itemSet A.head A.tail [A.start] := by simp [itemSet]
    have hsep := A.separated
    have hempty := A.nextFree_firstItem s.memory
    have hread : get (set (set (A.firstItem s.memory) .nextFree A.start A.head) .prevFree A.start
        A.head) .nextFree A.head = A.head := by
      rw [hsep.get_set hstartMem hheadMem (hsep.lt _ hheadMem),
        hsep.get_set hstartMem hheadMem (hsep.lt _ hheadMem), hempty]
      simp
    rw [rtMemheapInit_memory]
    apply Edits.outside (N := Set.univ) _ fun i hi => (rtMemheapInit_inv A s).ordered.covered hi
    have hitems : Edits (itemSet A.head A.tail [A.start]) Set.univ s.memory
        (A.firstItem s.memory) :=
      (((Edits.refl.initItem hheadMem).initItem hstartMem).then hstartMem).then hstartMem
    have hpush : Edits (itemSet A.head A.tail [A.start]) Set.univ s.memory
        (pushFree (A.firstItem s.memory) A.head A.start) := by
      unfold pushFree
      dsimp only
      rw [hempty, hread]
      exact (((hitems.then hstartMem).then hstartMem).then hheadMem).then hheadMem
    exact (((((hpush.then htailMem).then htailMem).then htailMem).then htailMem).then
      htailMem).then htailMem
  heaps k hk := by
    exact Function.update_of_ne hk _ _

theorem rtMemheapInit_holds (A : Area a) (s : State) :
    Holds A (rtMemheapInit a s A.heap A.head A.start A.size) fun _ => False := by
  have hinv := rtMemheapInit_inv A s
  have hfree := (hinv.free_iff A.start).mp (by simp)
  refine ⟨_, _, hinv, ?_⟩
  intro i
  simp only [mem_singleton, iff_false, not_and]
  intro hi
  rw [hi, hfree.2]
  decide

theorem Held.register (hheld : Held heaps s used) (hapart : ∀ B ∈ heaps, A.Apart B) :
    Held (A :: heaps) (rtMemheapInit a s A.heap A.head A.start A.size) used ∧
      ∀ j, used j → Kept a s.memory (rtMemheapInit a s A.heap A.head A.start A.size).memory j := by
  have hlocal := rtMemheapInit_local A s
  constructor
  · constructor
    · exact pairwise_cons.mpr ⟨hapart, hheld.apart⟩
    · intro B hB
      rcases mem_cons.mp hB with rfl | hB
      · apply (rtMemheapInit_holds B s).congr_used
        intro i
        rw [false_iff]
        rintro ⟨hi, hBi⟩
        rcases hheld.owner i hi with ⟨C, hC, hCi⟩
        exact (hapart C hC).not_covers hCi.covers hBi.covers
      · exact (hheld.holds B hB).of_local (hapart B hB) hlocal
    · intro i hi
      rcases hheld.owner i hi with ⟨B, hB, hBi⟩
      exact ⟨B, mem_cons_of_mem A hB, hBi⟩
  · intro j hj
    rcases hheld.owner j hj with ⟨B, hB, hBj⟩
    exact (hheld.holds B hB).kept_of_local (hapart B hB) hlocal ⟨hj, hBj⟩

end RtThread.MemHeap
