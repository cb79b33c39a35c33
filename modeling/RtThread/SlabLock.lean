import RtThread.SlabModel

/-!
# The semaphore of the slab heap

`rt_malloc` unlocks the heap around the page allocator.  Every call leaves `heap_sem` as it
found it, except a request which needs a new zone and gets no pages: it goes through the
label `fail`, where the semaphore is released a second time.
-/

namespace RtThread.Slab

open Option Word

def LacksZone (h : SlabHeap) (size : ℕ) : Prop :=
  size ≠ 0 ∧ size < h.zoneLimit ∧ h.zoneArray (zoneindex size).1 = [] ∧ h.zoneFree = [] ∧
    ∀ run ∈ h.rtPageList, h.zoneSize / RT_MM_PAGE_SIZE = 0 ∨ run.page < h.zoneSize / RT_MM_PAGE_SIZE

def HeapCall.request (h : SlabHeap) : HeapCall → Option ℕ
  | .malloc size => some size
  | .realloc none size => some size
  | .realloc (some ptr) size =>
    if size = 0 then none
    else
      let kup := h.memusage (ptr / RT_MM_PAGE_SIZE)
      match kup.type with
      | .large => some size
      | .small => do
          let zone ← h.zones (ptr / RT_MM_PAGE_SIZE - kup.size)
          if zone.zChunksize = (zoneindex size).2 then none else some (zoneindex size).2
      | .free => none
  | .free _ => none

def HeapCall.LacksZone (h : SlabHeap) (call : HeapCall) : Prop :=
  ∃ size, call.request h = some size ∧ Slab.LacksZone h size

instance (h : SlabHeap) (size : ℕ) : Decidable (LacksZone h size) :=
  inferInstanceAs (Decidable (_ ∧ _))

instance (h : SlabHeap) (call : HeapCall) : Decidable (call.LacksZone h) :=
  inferInstanceAs (Decidable (∃ size ∈ call.request h, LacksZone h size))

variable {h h' : SlabHeap} {size zi z p ptr npages : ℕ} {page : Option ℕ} {rest : List ℕ}
  {zone : SlabZone}

theorem lock_eq (hlock : h.lock = some h') :
    h.heapSem ≠ 0 ∧ h' = { h with heapSem := h.heapSem - 1 } := by
  unfold SlabHeap.lock PageHeap.take at hlock
  split_ifs at hlock with hsem
  · cases hlock
  · exact ⟨hsem, (some.inj hlock).symm⟩

theorem lock_of_ne_zero (hsem : h.heapSem ≠ 0) :
    h.lock = some { h with heapSem := h.heapSem - 1 } := by
  unfold SlabHeap.lock PageHeap.take
  rw [if_neg hsem]
  rfl

@[simp] theorem unlock_heapSem : h.unlock.heapSem = h.heapSem + 1 := rfl

@[simp] theorem charge_heapSem : (h.charge size).heapSem = h.heapSem := rfl

@[simp] theorem credit_heapSem : (h.credit size).heapSem = h.heapSem := rfl

@[simp] theorem setZone_heapSem : (h.setZone z zone).heapSem = h.heapSem := rfl

@[simp] theorem setArray_heapSem : (h.setArray zi rest).heapSem = h.heapSem := rfl

@[simp] theorem setUsage_heapSem {kup : Memusage} : (h.setUsage z kup).heapSem = h.heapSem := rfl

@[simp] theorem setZoneUsage_heapSem {kup : ℕ → Memusage} :
    (h.setZoneUsage z kup).heapSem = h.heapSem := rfl

theorem pageAlloc_cases (halloc : h.pageAlloc npages = some (h', page)) :
    h' = h ∧ page = none ∧ (npages = 0 ∨ (takePages npages h.rtPageList).1 = none) ∨
      ∃ p, page = some p ∧ 0 < npages ∧ (takePages npages h.rtPageList).1 = some p ∧
        h' = { h with rtPageList := (takePages npages h.rtPageList).2 } := by
  obtain ⟨⟨pages, found⟩, hpages, heq⟩ := map_eq_some_iff.mp halloc
  obtain ⟨rfl, rfl⟩ := Prod.mk.inj heq
  obtain ⟨rfl, hnone⟩ | ⟨p, rfl, hpos, hfound, rfl⟩ := rtPageAlloc_cases hpages
  · exact .inl ⟨rfl, hnone⟩
  · exact .inr ⟨p, rfl, hpos, hfound, rfl⟩

theorem exists_pageAlloc (hsem : h.heapSem ≠ 0) (npages : ℕ) :
    ∃ h' page, h.pageAlloc npages = some (h', page) := by
  obtain ⟨pages, page, halloc⟩ := exists_rtPageAlloc hsem npages
  exact ⟨_, _, map_eq_some_iff.mpr ⟨_, halloc, rfl⟩⟩

theorem pageFree_eq (hfree : h.pageFree p npages = some h') :
    h' = { h with rtPageList := putPages p npages h.rtPageList } := by
  obtain ⟨pages, hpages, rfl⟩ := map_eq_some_iff.mp hfree
  obtain rfl := rtPageFree_eq hpages
  rfl

theorem exists_pageFree (hsem : h.heapSem ≠ 0) (p npages : ℕ) :
    ∃ h', h.pageFree p npages = some h' := by
  obtain ⟨pages, hfree⟩ := exists_rtPageFree hsem p npages
  exact ⟨_, map_eq_some_iff.mpr ⟨_, hfree, rfl⟩⟩

theorem pageAlloc_heapSem (halloc : h.pageAlloc npages = some (h', page)) :
    h'.heapSem = h.heapSem := by
  obtain ⟨rfl, -⟩ | ⟨p, -, -, -, rfl⟩ := pageAlloc_cases halloc
  · rfl
  · rfl

theorem pageFree_heapSem (hfree : h.pageFree p npages = some h') : h'.heapSem = h.heapSem := by
  rw [pageFree_eq hfree]

theorem pageAlloc_eq_none_iff (halloc : h.pageAlloc npages = some (h', page)) :
    page = none ↔ ∀ run ∈ h.rtPageList, npages = 0 ∨ run.page < npages := by
  obtain ⟨-, rfl, hzero | hnone⟩ | ⟨p, rfl, hpos, hfound, -⟩ := pageAlloc_cases halloc
  · simp [hzero]
  · have hshort := takePages_eq_none_iff.mp hnone
    exact iff_of_true rfl fun run hrun => .inr (hshort run hrun)
  · apply iff_of_false (by simp)
    intro hshort
    have hnone := takePages_eq_none_iff.mpr fun run hrun =>
      (hshort run hrun).resolve_left hpos.ne'
    rw [hnone] at hfound
    cases hfound

theorem add_one_ne (sem : BitVec 16) : sem + 1 ≠ sem := by
  intro heq
  have hone : (1 : BitVec 16) = 0#16 := by
    calc
      (1 : BitVec 16) = sem + 1 - sem := by rw [BitVec.add_comm, BitVec.add_sub_cancel]
      _ = 0#16 := by rw [heq, BitVec.sub_self]
  cases hone

theorem mallocLarge_heapSem (hmalloc : mallocLarge h size = some (h', page)) :
    h'.heapSem = h.heapSem := by
  obtain ⟨⟨pages, found⟩, halloc, hrest⟩ := bind_eq_some_iff.mp hmalloc
  cases found with
  | none =>
    obtain ⟨rfl, rfl⟩ := Prod.mk.inj (some.inj hrest)
    exact pageAlloc_heapSem halloc
  | some p =>
    obtain ⟨locked, hlock, hdone⟩ := bind_eq_some_iff.mp hrest
    obtain ⟨-, rfl⟩ := lock_eq hlock
    obtain ⟨rfl, rfl⟩ := Prod.mk.inj (some.inj hdone)
    change pages.heapSem - 1 + 1 = h.heapSem
    rw [BitVec.sub_add_cancel]
    exact pageAlloc_heapSem halloc

theorem mallocFromZone_heapSem (hmalloc : mallocFromZone h zi size z rest = some (h', page)) :
    h'.heapSem = h.heapSem + 1 := by
  obtain ⟨zone, -, hmalloc⟩ := bind_eq_some_iff.mp hmalloc
  have hunlink : (if zone.zNfree - 1 = 0 then h.setArray zi rest else h).heapSem = h.heapSem := by
    split_ifs <;> rfl
  by_cases hcut : zone.zUindex + 1 ≠ zone.zNmax
  · rw [if_pos hcut] at hmalloc
    obtain ⟨rfl, rfl⟩ := Prod.mk.inj (some.inj hmalloc)
    simp [hunlink]
  · rw [if_neg hcut] at hmalloc
    cases hfree : zone.zFreechunk with
    | nil =>
      rw [hfree] at hmalloc
      cases hmalloc
    | cons chunk more =>
      rw [hfree] at hmalloc
      obtain ⟨rfl, rfl⟩ := Prod.mk.inj (some.inj hmalloc)
      simp [hunlink]

theorem rtMalloc_heapSem (hmalloc : rtMalloc h size = some (h', page)) :
    LacksZone h size ∧ page = none ∧ h'.heapSem = h.heapSem + 1 ∨
      ¬LacksZone h size ∧ h'.heapSem = h.heapSem := by
  unfold rtMalloc at hmalloc
  split_ifs at hmalloc with hzero hlarge
  · obtain ⟨rfl, -⟩ := Prod.mk.inj (some.inj hmalloc)
    exact .inr ⟨fun hlacks => hlacks.1 hzero, rfl⟩
  · exact .inr ⟨fun hlacks => absurd hlacks.2.1 (Nat.not_lt.mpr hlarge),
      mallocLarge_heapSem hmalloc⟩
  · obtain ⟨locked, hlock, hmalloc⟩ := bind_eq_some_iff.mp hmalloc
    obtain ⟨hsem, rfl⟩ := lock_eq hlock
    simp only at hmalloc
    cases harray : h.zoneArray (zoneindex size).1 with
    | cons z rest =>
      rw [harray] at hmalloc
      right
      constructor
      · intro hlacks
        rw [hlacks.2.2.1] at harray
        cases harray
      · rw [mallocFromZone_heapSem hmalloc, BitVec.sub_add_cancel]
    | nil =>
      rw [harray] at hmalloc
      cases hfree : h.zoneFree with
      | cons z rest =>
        rw [hfree] at hmalloc
        have heq := (Prod.mk.inj (some.inj hmalloc)).1
        right
        constructor
        · intro hlacks
          rw [hlacks.2.2.2.1] at hfree
          cases hfree
        · rw [← heq]
          exact BitVec.sub_add_cancel _ _
      | nil =>
        rw [hfree] at hmalloc
        obtain ⟨⟨pages, found⟩, halloc, hmalloc⟩ := bind_eq_some_iff.mp hmalloc
        have hkept : pages.heapSem = h.heapSem := by
          rw [pageAlloc_heapSem halloc, unlock_heapSem, BitVec.sub_add_cancel]
        have hfound := pageAlloc_eq_none_iff halloc
        cases found with
        | none =>
          obtain ⟨rfl, rfl⟩ := Prod.mk.inj (some.inj hmalloc)
          left
          refine ⟨⟨hzero, Nat.not_le.mp hlarge, harray, hfree, hfound.mp rfl⟩, rfl, ?_⟩
          rw [unlock_heapSem, hkept]
        | some z =>
          obtain ⟨locked, hlock, hmalloc⟩ := bind_eq_some_iff.mp hmalloc
          obtain ⟨-, rfl⟩ := lock_eq hlock
          have heq := (Prod.mk.inj (some.inj hmalloc)).1
          right
          constructor
          · intro hlacks
            cases hfound.mpr hlacks.2.2.2.2
          · rw [← heq, ← hkept]
            exact BitVec.sub_add_cancel _ _

theorem releaseZone_heapSem (hfree : releaseZone h = some h') : h'.heapSem = h.heapSem + 1 := by
  unfold releaseZone at hfree
  cases hlist : h.zoneFree with
  | nil =>
    rw [hlist] at hfree
    cases hfree
  | cons z rest =>
    rw [hlist] at hfree
    exact pageFree_heapSem hfree

theorem retireZone_heapSem (hfree : retireZone h z zone = some h') :
    h'.heapSem = h.heapSem + 1 := by
  unfold retireZone at hfree
  simp only at hfree
  split_ifs at hfree with hmem hmany
  · have hkept := releaseZone_heapSem hfree
    exact hkept
  · obtain rfl := some.inj hfree
    rfl

theorem freeChunk_heapSem (hfree : freeChunk h ptr z = some h') : h'.heapSem = h.heapSem + 1 := by
  obtain ⟨zone, -, hfree⟩ := bind_eq_some_iff.mp hfree
  simp only at hfree
  split_ifs at hfree with hrelink hretire hretire
  · have hkept := retireZone_heapSem hfree
    exact hkept
  · obtain rfl := some.inj hfree
    rfl
  · have hkept := retireZone_heapSem hfree
    exact hkept
  · obtain rfl := some.inj hfree
    rfl

theorem freeLarge_heapSem (hfree : freeLarge h p = some h') : h'.heapSem = h.heapSem := by
  obtain ⟨locked, hlock, hfree⟩ := bind_eq_some_iff.mp hfree
  obtain ⟨-, rfl⟩ := lock_eq hlock
  rw [pageFree_heapSem hfree]
  exact BitVec.sub_add_cancel _ _

theorem rtFree_heapSem {ptr : Option ℕ} (hfree : rtFree h ptr = some h') :
    h'.heapSem = h.heapSem := by
  cases ptr with
  | none =>
    obtain rfl := some.inj hfree
    rfl
  | some ptr =>
    unfold rtFree at hfree
    simp only at hfree
    split_ifs at hfree with hlarge
    · exact freeLarge_heapSem hfree
    · obtain ⟨locked, hlock, hfree⟩ := bind_eq_some_iff.mp hfree
      obtain ⟨-, rfl⟩ := lock_eq hlock
      rw [freeChunk_heapSem hfree, BitVec.sub_add_cancel]

theorem moveBlock_heapSem (hmove : moveBlock h ptr size = some (h', page)) :
    h'.heapSem = h.heapSem ↔ ¬LacksZone h size := by
  obtain ⟨⟨heap, nptr⟩, hmalloc, hrest⟩ := bind_eq_some_iff.mp hmove
  have hkept : h'.heapSem = heap.heapSem := by
    cases nptr with
    | none =>
      obtain ⟨rfl, -⟩ := Prod.mk.inj (some.inj hrest)
      rfl
    | some nptr =>
      obtain ⟨freed, hfree, hdone⟩ := bind_eq_some_iff.mp hrest
      obtain ⟨rfl, -⟩ := Prod.mk.inj (some.inj hdone)
      exact rtFree_heapSem hfree
  rw [hkept]
  obtain ⟨hlacks, -, hsem⟩ | ⟨hgets, hsem⟩ := rtMalloc_heapSem hmalloc
  · exact iff_of_false (hsem ▸ add_one_ne _) (not_not_intro hlacks)
  · exact iff_of_true hsem hgets

theorem rtMalloc_heapSem_iff (hmalloc : rtMalloc h size = some (h', page)) :
    h'.heapSem = h.heapSem ↔ ¬LacksZone h size := by
  obtain ⟨hlacks, -, hsem⟩ | ⟨hgets, hsem⟩ := rtMalloc_heapSem hmalloc
  · exact iff_of_false (hsem ▸ add_one_ne _) (not_not_intro hlacks)
  · exact iff_of_true hsem hgets

theorem heapSem_iff_of_request {call : HeapCall} (hrequest : call.request h = some size)
    (hkeeps : h'.heapSem = h.heapSem ↔ ¬LacksZone h size) :
    h'.heapSem = h.heapSem ↔ ¬call.LacksZone h := by
  rw [hkeeps, not_iff_not]
  constructor
  · exact fun hlacks => ⟨size, hrequest, hlacks⟩
  · rintro ⟨asked, hasked, hlacks⟩
    rw [hrequest] at hasked
    exact some.inj hasked ▸ hlacks

theorem heapSem_iff_of_no_request {call : HeapCall} (hrequest : call.request h = none)
    (hkept : h'.heapSem = h.heapSem) : h'.heapSem = h.heapSem ↔ ¬call.LacksZone h := by
  apply iff_of_true hkept
  rintro ⟨size, hsome, -⟩
  rw [hrequest] at hsome
  cases hsome

theorem rtRealloc_heapSem_iff {ptr : Option ℕ} (hrealloc : rtRealloc h ptr size = some (h', page)) :
    h'.heapSem = h.heapSem ↔ ¬(HeapCall.realloc ptr size).LacksZone h := by
  cases ptr with
  | none => exact heapSem_iff_of_request rfl (rtMalloc_heapSem_iff hrealloc)
  | some ptr =>
    unfold rtRealloc at hrealloc
    simp only at hrealloc
    split_ifs at hrealloc with hzero
    · obtain ⟨freed, hfree, heq⟩ := map_eq_some_iff.mp hrealloc
      obtain ⟨rfl, -⟩ := Prod.mk.inj heq
      exact heapSem_iff_of_no_request (if_pos hzero) (rtFree_heapSem hfree)
    · cases htype : (h.memusage (ptr / RT_MM_PAGE_SIZE)).type with
      | large =>
        rw [htype] at hrealloc
        apply heapSem_iff_of_request _ (moveBlock_heapSem hrealloc)
        simp [HeapCall.request, hzero, htype]
      | free =>
        rw [htype] at hrealloc
        obtain ⟨rfl, -⟩ := Prod.mk.inj (some.inj hrealloc)
        apply heapSem_iff_of_no_request _ rfl
        simp [HeapCall.request, hzero, htype]
      | small =>
        rw [htype] at hrealloc
        obtain ⟨zone, hzone, hrealloc⟩ := bind_eq_some_iff.mp hrealloc
        split_ifs at hrealloc with hsame
        · obtain ⟨rfl, -⟩ := Prod.mk.inj (some.inj hrealloc)
          apply heapSem_iff_of_no_request _ rfl
          simp [HeapCall.request, hzero, htype, hzone, hsame]
        · apply heapSem_iff_of_request _ (moveBlock_heapSem hrealloc)
          simp [HeapCall.request, hzero, htype, hzone, hsame]

/-- A call gives the semaphore back unless it lacks a zone. -/
theorem execute_heapSem_iff {call : HeapCall} (hexecute : call.execute h = some (h', page)) :
    h'.heapSem = h.heapSem ↔ ¬call.LacksZone h := by
  cases call with
  | malloc size => exact heapSem_iff_of_request rfl (rtMalloc_heapSem_iff hexecute)
  | realloc ptr size => exact rtRealloc_heapSem_iff hexecute
  | free ptr =>
    obtain ⟨freed, hfree, heq⟩ := map_eq_some_iff.mp hexecute
    obtain ⟨rfl, -⟩ := Prod.mk.inj heq
    exact heapSem_iff_of_no_request rfl (rtFree_heapSem hfree)

theorem rtSystemHeapInit_heapSem {beginAddr endAddr : ℕ}
    (hinit : rtSystemHeapInit h beginAddr endAddr = some h')
    (hroom : alignUp beginAddr RT_MM_PAGE_SIZE < alignDown endAddr RT_MM_PAGE_SIZE) :
    h'.heapSem = 1 := by
  unfold rtSystemHeapInit at hinit
  rw [if_neg (Nat.not_le.mpr hroom)] at hinit
  obtain ⟨pages, hpages, hinit⟩ := bind_eq_some_iff.mp hinit
  obtain ⟨⟨heap, page⟩, halloc, hinit⟩ := bind_eq_some_iff.mp hinit
  obtain rfl := some.inj hinit
  obtain rfl := rtPageFree_eq hpages
  have hkept := pageAlloc_heapSem halloc
  exact hkept

theorem heapSem_of_reachable {beginAddr endAddr : ℕ} {s : SlabState}
    (hreach : (slabSystem beginAddr endAddr).Reachable
      (fun s call => ¬call.LacksZone s.heap) s) : s.heap.heapSem = 1 := by
  apply hreach.invariant (P := fun s => s.heap.heapSem = 1)
  · rintro s ⟨-, -, -, hroom, -, memusage, hinit⟩
    exact rtSystemHeapInit_heapSem hinit hroom
  · intro s call s' hsem hgets hstep
    obtain ⟨⟨heap, page⟩, hexecute, rfl⟩ := map_eq_some_iff.mp hstep.2
    exact ((execute_heapSem_iff hexecute).mpr hgets).trans hsem

/-- A call keeps `heap_sem` exactly when its request does not lack a zone; in a run of such
calls the heap is never locked twice. -/
theorem heapSem_balanced (beginAddr endAddr : ℕ) :
    (∀ (h h' : SlabHeap) (call : HeapCall) (page : Option ℕ), call.execute h = some (h', page) →
        (h'.heapSem = h.heapSem ↔ ¬call.LacksZone h)) ∧ ∀ s : SlabState,
        (slabSystem beginAddr endAddr).Reachable (fun s call => ¬call.LacksZone s.heap) s →
          ∀ locked, s.heap.lock = some locked → locked.lock = none := by
  constructor
  · exact fun h h' call page hexecute => execute_heapSem_iff hexecute
  · intro s hreach locked hlock
    have hsem := heapSem_of_reachable hreach
    obtain ⟨-, rfl⟩ := lock_eq hlock
    simp [SlabHeap.lock, PageHeap.take, hsem]

def ninePages : SlabHeap :=
  { bootHeap (fun _ => ⟨.free, 0⟩) with
    rtPageList := [⟨33, 8⟩]
    heapSem := 1
    zoneSize := 32768
    zoneLimit := 8192
    zonePageCnt := 8 }

theorem init_ninePages : (slabSystem 0x20000 0x29000).init ⟨ninePages, []⟩ := by
  refine ⟨by decide, by decide, by decide, by decide, rfl, fun _ => ⟨.free, 0⟩, ?_⟩
  have hstart : alignUp 0x20000 RT_MM_PAGE_SIZE = 0x20000 := by decide
  have hend : alignDown 0x29000 RT_MM_PAGE_SIZE = 0x29000 := by decide
  unfold rtSystemHeapInit
  rw [hstart, hend]
  rfl

theorem heapSem_balanced_of_large_request :
    ∃ h', (HeapCall.malloc 10000).execute ninePages = some (h', some 0x21000) ∧
      (h'.heapSem = ninePages.heapSem ↔ ¬(HeapCall.malloc 10000).LacksZone ninePages) ∧
      ∀ locked, ninePages.lock = some locked → locked.lock = none := by
  have hbalanced := heapSem_balanced 0x20000 0x29000
  exact ⟨_, rfl, hbalanced.1 _ _ _ _ rfl, hbalanced.2 ⟨ninePages, []⟩ (.start init_ninePages)⟩

/-- No pages are left for a new zone, and `rt_malloc` releases the semaphore twice. -/
theorem heapSem_not_balanced :
    ∃ s, (slabSystem 0x20000 0x29000).Reachable (fun _ _ => True) s ∧ s.heap.heapSem = 1 ∧
      ∃ h', (HeapCall.malloc 100).execute s.heap = some (h', none) ∧ h'.heapSem = 2 ∧
        ∃ first second, h'.lock = some first ∧ first.lock = some second := by
  have hstep : (slabSystem 0x20000 0x29000).step ⟨ninePages, []⟩ (.malloc 8) _ :=
    ⟨(by decide : (8 : ℕ) < 4294967296), rfl⟩
  exact ⟨_, .next (.start init_ninePages) trivial hstep, rfl, _, rfl, rfl, _, _, rfl, rfl⟩

end RtThread.Slab
