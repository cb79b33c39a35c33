import RtThread.FinshHeap

/-!
# The blocks of the string heap

The free and the allocated blocks lie side by side in `finsh_heap`.  Splitting,
merging and moving blocks between the lists keeps them so, and a garbage
collection leaves exactly the blocks some variable points to.
-/

namespace RtThread.Finsh

open List FinshBlock

section Blocks

variable {header block prev : FinshBlock} {blocks blocks' rest list others : List FinshBlock}
  {size addr : ℕ}

def FinshBlock.Apart (block block' : FinshBlock) : Prop :=
  block.behind ≤ block'.addr ∨ block'.behind ≤ block.addr

theorem FinshBlock.Apart.symm {block' : FinshBlock} (hapart : block.Apart block') :
    block'.Apart block :=
  Or.symm hapart

theorem FinshBlock.Apart.addr_ne {block' : FinshBlock} (hapart : block.Apart block') :
    block.addr ≠ block'.addr := by
  unfold Apart behind sizeofBlockHeader at hapart
  omega

/-- No two blocks overlap and all lie in the heap. -/
structure Separate (blocks : List FinshBlock) : Prop where
  apart : blocks.Pairwise FinshBlock.Apart
  inside : ∀ block ∈ blocks, block.behind ≤ FINSH_HEAP_MAX

theorem Separate.perm (hblocks : Separate blocks) (hperm : blocks.Perm blocks') :
    Separate blocks' :=
  ⟨(hperm.pairwise_iff fun hapart => hapart.symm).mp hblocks.apart,
    fun block hmem => hblocks.inside block (hperm.mem_iff.mpr hmem)⟩

theorem Separate.tail (hblocks : Separate (header :: blocks)) : Separate blocks :=
  ⟨(pairwise_cons.mp hblocks.apart).2, fun block hmem => hblocks.inside block (.tail _ hmem)⟩

theorem Separate.middle (hblocks : Separate (blocks ++ header :: rest)) :
    Separate (header :: (blocks ++ rest)) :=
  hblocks.perm perm_middle

theorem Separate.append_right (hblocks : Separate (blocks ++ blocks')) : Separate blocks' :=
  ⟨(pairwise_append.mp hblocks.apart).2.1,
    fun block hmem => hblocks.inside block (mem_append_right _ hmem)⟩

theorem Separate.append_left (hblocks : Separate (blocks ++ blocks')) : Separate blocks :=
  (hblocks.perm perm_append_comm).append_right

theorem Separate.nodup (hblocks : Separate blocks) : (blocks.map FinshBlock.addr).Nodup :=
  hblocks.apart.map _ fun _ _ hapart => hapart.addr_ne

theorem Separate.addr_ne (hblocks : Separate (header :: blocks)) (hmem : block ∈ blocks) :
    header.addr ≠ block.addr :=
  ((pairwise_cons.mp hblocks.apart).1 block hmem).addr_ne

theorem Separate.shrink (hblocks : Separate (block :: rest)) (hlow : block.addr ≤ header.addr)
    (hhigh : header.behind ≤ block.behind) : Separate (header :: rest) := by
  obtain ⟨hhead, hrest⟩ := pairwise_cons.mp hblocks.apart
  constructor
  · apply Pairwise.cons _ hrest
    intro other hmem
    have hapart := hhead other hmem
    unfold Apart at hapart ⊢
    omega
  · intro other hmem
    obtain rfl | hmem := mem_cons.mp hmem
    · exact hhigh.trans (hblocks.inside block (.head _))
    · exact hblocks.inside other (.tail _ hmem)

theorem Separate.merge (hblocks : Separate (header :: block :: rest))
    (htouch : header.behind = block.addr) : Separate
      ({ header with length := header.length + block.length + sizeofBlockHeader } :: rest) := by
  generalize hboth : { header with
    length := header.length + block.length + sizeofBlockHeader } = both
  have hhigh : both.behind = block.behind := by
    rw [← hboth]
    unfold behind at htouch ⊢
    lia
  have hheader := (pairwise_cons.mp hblocks.apart).1
  have hblock := (pairwise_cons.mp hblocks.tail.apart).1
  constructor
  · apply Pairwise.cons _ hblocks.tail.tail.apart
    intro other hmem
    have hapart := hheader other (.tail _ hmem)
    have hapart' := hblock other hmem
    unfold Apart at hapart hapart' ⊢
    have hheight : other.addr < other.behind := by
      unfold behind sizeofBlockHeader
      lia
    lia
  · intro other hmem
    obtain rfl | hmem := mem_cons.mp hmem
    · exact hhigh.trans_le (hblocks.inside block (.tail _ (.head _)))
    · exact hblocks.inside other (.tail _ (.tail _ hmem))

theorem Separate.split (hblocks : Separate (header :: rest))
    (hroom : size + sizeofBlockHeader ≤ header.length) :
    Separate (⟨header.addr, size⟩ :: finshBlockSplit header size :: rest) := by
  have hfirst : Separate (⟨header.addr, size⟩ :: rest) := by
    refine Separate.shrink hblocks le_rfl ?_
    unfold behind
    lia
  have hsecond : Separate (finshBlockSplit header size :: rest) := by
    apply hblocks.shrink
    · unfold finshBlockSplit
      lia
    · unfold behind finshBlockSplit
      lia
  constructor
  · apply Pairwise.cons _ hsecond.apart
    intro other hmem
    obtain rfl | hmem := mem_cons.mp hmem
    · left
      unfold behind finshBlockSplit
      lia
    · exact (pairwise_cons.mp hfirst.apart).1 other hmem
  · intro other hmem
    obtain rfl | hmem := mem_cons.mp hmem
    · exact hfirst.inside _ (.head _)
    · exact hsecond.inside other hmem

theorem finshBlockInsert_perm (header : FinshBlock) (list : List FinshBlock) :
    (finshBlockInsert header list).Perm (header :: list) := by
  induction list with
  | nil => exact .refl _
  | cons node rest ih =>
    unfold finshBlockInsert
    split
    · exact .refl _
    · exact (ih.cons node).trans (.swap _ _ _)

theorem finshBlockRemove_middle (hkept : ∀ block ∈ blocks, block.addr ≠ header.addr)
    (haddr : block.addr = header.addr) :
    finshBlockRemove header (blocks ++ block :: rest) = blocks ++ rest := by
  induction blocks with
  | nil =>
    unfold finshBlockRemove
    rw [nil_append, eraseP_cons_of_pos (by simpa using haddr), nil_append]
  | cons first blocks ih =>
    have hfirst := hkept first (.head _)
    have hrest := ih fun block hmem => hkept block (.tail _ hmem)
    unfold finshBlockRemove at hrest ⊢
    rw [cons_append, eraseP_cons_of_neg (by simpa using hfirst), hrest, cons_append]

theorem finshBlockRemove_perm (hlist : (list.map FinshBlock.addr).Nodup) (hmem : header ∈ list) :
    list.Perm (header :: finshBlockRemove header list) := by
  obtain ⟨front, back, rfl⟩ := append_of_mem hmem
  have hother : ∀ block ∈ front, block.addr ≠ header.addr := by
    intro block hblock haddr
    have hdisjoint := (map_append ▸ hlist).disjoint
    exact hdisjoint (mem_map_of_mem hblock) (haddr ▸ mem_map_of_mem (.head _))
  rw [finshBlockRemove_middle hother rfl]
  exact perm_middle

theorem Separate.mergeNext (hlist : Separate (header :: list ++ others)) :
    Separate (mergeNext header list ++ others) := by
  cases list with
  | nil => exact hlist
  | cons next rest =>
    rw [mergeNext]
    split
    · rename_i htouch
      exact Separate.merge hlist htouch
    · exact hlist

theorem Separate.finshBlockMerge (hlist : Separate (list ++ others)) :
    Separate (finshBlockMerge addr list ++ others) := by
  induction list generalizing others with
  | nil => exact hlist
  | cons prev rest ih =>
    unfold finshBlockMerge
    split
    · exact hlist.mergeNext
    · cases rest with
      | nil => exact hlist
      | cons header rest =>
        have hbehind : Separate (header :: rest ++ prev :: others) :=
          hlist.perm perm_middle.symm
        dsimp only
        split
        · split
          · rename_i htouch
            exact (Separate.merge hlist htouch).mergeNext
          · exact hbehind.mergeNext.perm perm_middle
        · exact (ih hbehind).perm perm_middle

end Blocks

section Heap

variable {heap : FinshHeap}
  {header block : FinshBlock} {size : ℕ}

def FinshHeap.blocks (heap : FinshHeap) : List FinshBlock := heap.freeList ++ heap.allocateList

def HeapOk (heap : FinshHeap) : Prop := Separate heap.blocks

theorem heapOk_init : HeapOk finshHeapInit := by
  constructor
  · exact pairwise_singleton _ _
  · intro block hmem
    obtain rfl := mem_singleton.mp hmem
    exact le_rfl

theorem HeapOk.finshHeapFree (hheap : HeapOk heap) (hmem : block ∈ heap.allocateList) :
    HeapOk (finshHeapFree block heap) := by
  have hremove := finshBlockRemove_perm (Separate.append_right hheap).nodup hmem
  have hmoved : Separate
      (finshBlockInsert block heap.freeList ++ finshBlockRemove block heap.allocateList) := by
    have hblocks : heap.blocks.Perm
        (block :: (heap.freeList ++ finshBlockRemove block heap.allocateList)) :=
      (hremove.append_left _).trans perm_middle
    exact Separate.perm hheap
      (hblocks.trans ((finshBlockInsert_perm block heap.freeList).symm.append_right _))
  exact hmoved.finshBlockMerge

theorem takeBlock_perm :
    (takeBlock header size heap).allocateList.Perm (⟨header.addr, size⟩ :: heap.allocateList) :=
  finshBlockInsert_perm _ _

theorem HeapOk.takeBlock (hheap : HeapOk heap) (hmem : header ∈ heap.freeList)
    (hroom : size + sizeofBlockHeader ≤ header.length) : HeapOk (takeBlock header size heap) := by
  have hfree := perm_cons_erase hmem
  generalize heap.freeList.erase header = free at hfree
  have hsplit : Separate (⟨header.addr, size⟩ :: finshBlockSplit header size ::
      (free ++ heap.allocateList)) :=
    (Separate.perm hheap (hfree.append_right _)).split hroom
  have hinserted : (finshBlockInsert (finshBlockSplit header size) heap.freeList).Perm
      (header :: finshBlockSplit header size :: free) :=
    (finshBlockInsert_perm _ _).trans ((hfree.cons _).trans (.swap _ _ _))
  have hremoved : (header :: finshBlockSplit header size :: free).Perm
      (header :: finshBlockRemove header
        (finshBlockInsert (finshBlockSplit header size) heap.freeList)) := by
    have hnodup : (List.map addr
        (header :: finshBlockSplit header size :: free)).Nodup :=
      hsplit.nodup.sublist ((sublist_append_left _ _).map _)
    refine hinserted.symm.trans (finshBlockRemove_perm ?_ (hinserted.mem_iff.mpr (.head _)))
    exact (hinserted.map _).nodup_iff.mpr hnodup
  have htaken : (⟨header.addr, size⟩ :: finshBlockSplit header size ::
      (free ++ heap.allocateList)).Perm (Finsh.takeBlock header size heap).blocks := by
    have hmiddle : ((finshBlockSplit header size :: free) ++
        ⟨header.addr, size⟩ :: heap.allocateList).Perm
        (⟨header.addr, size⟩ :: ((finshBlockSplit header size :: free) ++ heap.allocateList)) :=
      perm_middle
    exact hmiddle.symm.trans (hremoved.cons_inv.append takeBlock_perm.symm)
  exact hsplit.perm htaken

end Heap

end RtThread.Finsh
