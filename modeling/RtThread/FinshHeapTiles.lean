import RtThread.FinshHeapBlocks

/-!
# The tiling of the string heap

The free and the allocated blocks tile `finsh_heap`, the block at its top is
free and no two free blocks touch.  Every function of the heap keeps this: a
split leaves a free rest, and a released block is merged with the neighbours it
touches.
-/

namespace RtThread.Finsh

open List FinshBlock

section Lists

variable {header block prev : FinshBlock} {list front back : List FinshBlock} {x : ℕ}

def FinshBlock.join (block next : FinshBlock) : FinshBlock where
  addr := block.addr
  length := block.length + next.length + sizeofBlockHeader

theorem FinshBlock.behind_join (htouch : prev.behind = block.addr) :
    (prev.join block).behind = block.behind := by
  unfold behind join at *
  dsimp only
  omega

theorem FinshBlock.addr_lt_behind (block : FinshBlock) : block.addr < block.behind := by
  unfold behind sizeofBlockHeader
  omega

def Gapped (list : List FinshBlock) : Prop :=
  list.Pairwise fun block next => block.behind < next.addr

theorem exists_finshBlockInsert (header : FinshBlock)
    (hsorted : list.Pairwise fun block next => block.addr < next.addr)
    (hfresh : ∀ block ∈ list, block.addr ≠ header.addr) :
    ∃ front back, list = front ++ back ∧ finshBlockInsert header list = front ++ header :: back ∧
      (∀ block ∈ front, block.addr < header.addr) ∧ ∀ block ∈ back, header.addr < block.addr := by
  induction list with
  | nil => exact ⟨[], [], rfl, rfl, by simp, by simp⟩
  | cons node rest ih =>
    obtain ⟨hnode, hrest⟩ := pairwise_cons.mp hsorted
    unfold finshBlockInsert
    split
    · rename_i hlt
      have hback : ∀ block ∈ node :: rest, header.addr < block.addr := by
        intro block hmem
        obtain rfl | hmem := mem_cons.mp hmem
        · exact hlt
        · exact hlt.trans (hnode block hmem)
      exact ⟨[], node :: rest, rfl, rfl, by simp, hback⟩
    · rename_i hge
      obtain ⟨front, back, hlist, hinsert, hfront, hback⟩ :=
        ih hrest fun block hmem => hfresh block (.tail _ hmem)
      have hlt : node.addr < header.addr := by
        have hne := hfresh node (.head _)
        omega
      refine ⟨node :: front, back, by rw [hlist, cons_append],
        by rw [hinsert, cons_append], ?_, hback⟩
      intro block hmem
      obtain rfl | hmem := mem_cons.mp hmem
      · exact hlt
      · exact hfront block hmem

theorem finshBlockMerge_head :
    finshBlockMerge header.addr (header :: back) = mergeNext header back := by
  rw [finshBlockMerge.eq_def]
  simp only [if_true]

theorem finshBlockMerge_behind (hfront : ∀ block ∈ front, block.addr ≠ header.addr)
    (hprev : prev.addr ≠ header.addr) :
    finshBlockMerge header.addr (front ++ prev :: header :: back) =
      front ++ if prev.behind = header.addr then mergeNext (prev.join header) back
        else prev :: mergeNext header back := by
  induction front with
  | nil =>
    rw [nil_append, nil_append, finshBlockMerge.eq_def]
    simp only [if_neg hprev, if_true]
    rfl
  | cons first front ih =>
    have hfirst := hfront first (.head _)
    have hrest := ih fun block hmem => hfront block (.tail _ hmem)
    rw [cons_append, cons_append, ← hrest, finshBlockMerge.eq_def]
    simp only [if_neg hfirst]
    cases front with
    | nil => simp only [nil_append, if_neg hprev]
    | cons second front =>
      have hsecond := hfront second (.tail _ (.head _))
      simp only [cons_append, if_neg hsecond]

theorem forall_mergeNext {P : FinshBlock → Prop} (hjoin : ∀ b b', P b → P b' → P (b.join b'))
    (hheader : P header) (hback : ∀ block ∈ back, P block) :
    ∀ block ∈ mergeNext header back, P block := by
  intro block hmem
  cases back with
  | nil =>
    obtain rfl := mem_singleton.mp hmem
    exact hheader
  | cons next rest =>
    have hnext := hback next (.head _)
    rw [mergeNext] at hmem
    split at hmem
    · obtain rfl | hmem := mem_cons.mp hmem
      · exact hjoin header next hheader hnext
      · exact hback block (.tail _ hmem)
    · obtain rfl | hmem := mem_cons.mp hmem
      · exact hheader
      · exact hback block hmem

theorem lt_of_mem_mergeNext (hlow : x < header.addr) (hback : ∀ block ∈ back, x < block.addr) :
    ∀ block ∈ mergeNext header back, x < block.addr :=
  forall_mergeNext (fun _ _ hb _ => hb) hlow hback

theorem gapped_mergeNext (hback : Gapped back) (hbehind : ∀ b ∈ back, header.behind ≤ b.addr) :
    Gapped (mergeNext header back) := by
  cases back with
  | nil => exact pairwise_singleton _ _
  | cons next rest =>
    obtain ⟨hnext, hrest⟩ := pairwise_cons.mp hback
    rw [mergeNext]
    split
    · rename_i htouch
      apply Pairwise.cons _ hrest
      intro block hmem
      have hjoin : (header.join next).behind = next.behind := behind_join htouch
      exact hjoin.trans_lt (hnext block hmem)
    · rename_i hapart
      have hlt : header.behind < next.addr := Nat.lt_of_le_of_ne (hbehind next (.head _)) hapart
      apply Pairwise.cons _ hback
      intro block hmem
      obtain rfl | hmem := mem_cons.mp hmem
      · exact hlt
      · exact hlt.trans (next.addr_lt_behind.trans (hnext block hmem))

theorem gapped_finshBlockMerge (hlist : Gapped (front ++ back))
    (hfront : ∀ block ∈ front, block.behind ≤ header.addr)
    (hback : ∀ block ∈ back, header.behind ≤ block.addr) :
    Gapped (finshBlockMerge header.addr (front ++ header :: back)) := by
  obtain ⟨hgapFront, hgapBack, hcross⟩ := pairwise_append.mp hlist
  obtain rfl | ⟨front, prev, rfl⟩ := front.eq_nil_or_concat'
  · rw [nil_append, finshBlockMerge_head]
    exact gapped_mergeNext hgapBack hback
  · obtain ⟨hgapFront, -, hprevs⟩ := pairwise_append.mp hgapFront
    have hprev : prev.behind ≤ header.addr := hfront prev (by simp)
    have hprevs : ∀ block ∈ front, block.behind < prev.addr := fun block hmem =>
      hprevs block hmem prev (.head _)
    have hbelow : ∀ block ∈ front, block.addr ≠ header.addr := fun block hmem => by
      have hlt := hprevs block hmem
      have hblock := block.addr_lt_behind
      have hprev' := prev.addr_lt_behind
      lia
    have hcross : ∀ block ∈ front, ∀ next ∈ back, block.behind < next.addr :=
      fun block hmem => hcross block (mem_append_left _ hmem)
    have hheader := header.addr_lt_behind
    have hprevAddr := prev.addr_lt_behind
    rw [append_assoc, singleton_append, finshBlockMerge_behind hbelow (by lia)]
    split
    · rename_i htouch
      have hjoin : (prev.join header).behind = header.behind := behind_join htouch
      refine pairwise_append.mpr ⟨hgapFront, ?_, ?_⟩
      · exact gapped_mergeNext hgapBack fun block hmem => hjoin.trans_le (hback block hmem)
      · intro block hmem
        exact lt_of_mem_mergeNext (hprevs block hmem) (hcross block hmem)
    · rename_i hapart
      have hlt : prev.behind < header.addr := Nat.lt_of_le_of_ne hprev hapart
      have hgap : Gapped (prev :: mergeNext header back) := by
        apply Pairwise.cons _ (gapped_mergeNext hgapBack hback)
        refine lt_of_mem_mergeNext hlt fun block hmem => ?_
        have hle := hback block hmem
        lia
      refine pairwise_append.mpr ⟨hgapFront, hgap, ?_⟩
      intro block hmem next hnext
      have hbefore := hprevs block hmem
      obtain rfl | hnext := mem_cons.mp hnext
      · exact hbefore
      · have hlow : block.behind < header.addr := by lia
        exact lt_of_mem_mergeNext hlow (hcross block hmem) next hnext

theorem exists_mem_mergeNext (hmem : block ∈ header :: back) : ∃ larger ∈ mergeNext header back,
      larger.addr ≤ block.addr ∧ block.behind ≤ larger.behind := by
  cases back with
  | nil => exact ⟨block, hmem, le_rfl, le_rfl⟩
  | cons next rest =>
    rw [mergeNext]
    split
    · rename_i htouch
      have hjoin : (header.join next).behind = next.behind := behind_join htouch
      have hheader := header.addr_lt_behind
      have hnext := next.addr_lt_behind
      rw [mem_cons, mem_cons] at hmem
      obtain rfl | rfl | hmem := hmem
      · exact ⟨block.join next, .head _, le_rfl, by omega⟩
      · exact ⟨header.join block, .head _, by change header.addr ≤ _; omega, hjoin.ge⟩
      · exact ⟨block, .tail _ hmem, le_rfl, le_rfl⟩
    · exact ⟨block, hmem, le_rfl, le_rfl⟩

theorem exists_mem_finshBlockMerge (addr : ℕ) (hmem : block ∈ list) :
    ∃ larger ∈ finshBlockMerge addr list,
      larger.addr ≤ block.addr ∧ block.behind ≤ larger.behind := by
  induction list generalizing block with
  | nil => cases hmem
  | cons prev rest ih =>
    unfold finshBlockMerge
    split
    · exact exists_mem_mergeNext hmem
    · cases rest with
      | nil => exact ⟨block, hmem, le_rfl, le_rfl⟩
      | cons header rest =>
        dsimp only
        split
        · split
          · rename_i htouch
            have hjoin : (prev.join header).behind = header.behind := behind_join htouch
            have hprev := prev.addr_lt_behind
            have hheader := header.addr_lt_behind
            rw [mem_cons, mem_cons] at hmem
            have hjoined : ∃ joined ∈ prev.join header :: rest,
                joined.addr ≤ block.addr ∧ block.behind ≤ joined.behind := by
              obtain rfl | rfl | hmem := hmem
              · exact ⟨_, .head _, le_rfl, by omega⟩
              · exact ⟨_, .head _, by change prev.addr ≤ _; omega, hjoin.ge⟩
              · exact ⟨block, .tail _ hmem, le_rfl, le_rfl⟩
            obtain ⟨joined, hjoinedMem, hlow, hhigh⟩ := hjoined
            obtain ⟨larger, hlarger, hlow', hhigh'⟩ := exists_mem_mergeNext hjoinedMem
            exact ⟨larger, hlarger, hlow'.trans hlow, hhigh.trans hhigh'⟩
          · obtain rfl | hmem := mem_cons.mp hmem
            · exact ⟨block, .head _, le_rfl, le_rfl⟩
            · obtain ⟨larger, hlarger, hbounds⟩ := exists_mem_mergeNext hmem
              exact ⟨larger, .tail _ hlarger, hbounds⟩
        · obtain rfl | hmem := mem_cons.mp hmem
          · exact ⟨block, .head _, le_rfl, le_rfl⟩
          · obtain ⟨larger, hlarger, hbounds⟩ := ih hmem
            exact ⟨larger, .tail _ hlarger, hbounds⟩

theorem forall_finshBlockMerge {P : FinshBlock → Prop} (addr : ℕ)
    (hjoin : ∀ b b', P b → P b' → P (b.join b')) (hlist : ∀ block ∈ list, P block) :
    ∀ block ∈ finshBlockMerge addr list, P block := by
  induction list with
  | nil => exact hlist
  | cons prev rest ih =>
    have hprev := hlist prev (.head _)
    have hrest := fun block hmem => hlist block (.tail _ hmem)
    unfold finshBlockMerge
    split
    · exact forall_mergeNext hjoin hprev hrest
    · cases rest with
      | nil => exact hlist
      | cons header rest =>
        have hheader := hrest header (.head _)
        have hbehind := fun block hmem => hrest block (.tail _ hmem)
        dsimp only
        split
        · split
          · exact forall_mergeNext hjoin (hjoin prev header hprev hheader) hbehind
          · intro block hmem
            obtain rfl | hmem := mem_cons.mp hmem
            · exact hprev
            · exact forall_mergeNext hjoin hheader hbehind block hmem
        · intro block hmem
          obtain rfl | hmem := mem_cons.mp hmem
          · exact hprev
          · exact ih hrest block hmem

end Lists

structure HeapTiles (heap : FinshHeap) : Prop where
  /-- No two blocks overlap and none leaves the heap. -/
  separate : HeapOk heap
  covers : ∀ x < FINSH_HEAP_MAX, ∃ block ∈ heap.blocks, block.addr ≤ x ∧ x < block.behind
  freeSorted : heap.freeList.Pairwise fun block next => block.addr < next.addr
  allocateSorted : heap.allocateList.Pairwise fun block next => block.addr < next.addr
  top : ∃ block ∈ heap.freeList, block.behind = FINSH_HEAP_MAX
  noFreePair : ∀ block ∈ heap.freeList, ∀ next ∈ heap.freeList, block.behind ≠ next.addr
  aligned : ∀ block ∈ heap.blocks, 4 ∣ block.addr ∧ 4 ∣ block.length

section Heap

variable {heap : FinshHeap} {header block : FinshBlock} {front back : List FinshBlock} {size : ℕ}

theorem HeapTiles.gapped (hheap : HeapTiles heap) : Gapped heap.freeList := by
  have hapart := (pairwise_append.mp hheap.separate.apart).1
  have hboth := hheap.freeSorted.and hapart
  apply hboth.imp_of_mem
  intro block next hblock hnext h
  have hne := hheap.noFreePair block hblock next hnext
  have hlt := next.addr_lt_behind
  unfold Apart at h
  omega

theorem Gapped.sorted {list : List FinshBlock} (hlist : Gapped list) :
    list.Pairwise fun block next => block.addr < next.addr :=
  hlist.imp fun hlt => (addr_lt_behind _).trans hlt

theorem Gapped.noPair {list : List FinshBlock} (hlist : Gapped list) :
    ∀ block ∈ list, ∀ next ∈ list, block.behind ≠ next.addr := by
  induction list with
  | nil => simp
  | cons first rest ih =>
    obtain ⟨hfirst, hrest⟩ := pairwise_cons.mp hlist
    intro block hblock next hnext
    have hlt := first.addr_lt_behind
    have hblockLt := block.addr_lt_behind
    obtain rfl | hblockRest := mem_cons.mp hblock
    · obtain rfl | hnextRest := mem_cons.mp hnext
      · omega
      · exact (hfirst next hnextRest).ne
    · obtain rfl | hnextRest := mem_cons.mp hnext
      · have hbelow := hfirst block hblockRest
        omega
      · exact ih hrest block hblockRest next hnextRest

theorem HeapTiles.apart (hheap : HeapTiles heap) (hfree : header ∈ heap.freeList)
    (hblock : block ∈ heap.allocateList) : header.Apart block :=
  (pairwise_append.mp hheap.separate.apart).2.2 header hfree block hblock

theorem heapTiles_init : HeapTiles finshHeapInit where
  separate := heapOk_init
  covers := fun x hx => ⟨_, .head _, Nat.zero_le x, hx⟩
  freeSorted := pairwise_singleton _ _
  allocateSorted := .nil
  top := ⟨_, .head _, rfl⟩
  noFreePair := Gapped.noPair (pairwise_singleton _ _)
  aligned := by
    intro block hmem
    obtain rfl := mem_singleton.mp hmem
    exact ⟨by decide, by decide⟩

section

variable (hheap : HeapTiles heap)
include hheap

theorem HeapTiles.exists_place (hmem : block ∈ heap.allocateList) :
    ∃ front back, heap.freeList = front ++ back ∧
      finshBlockInsert block heap.freeList = front ++ block :: back ∧
      (∀ free ∈ front, free.behind ≤ block.addr) ∧ ∀ free ∈ back, block.behind ≤ free.addr := by
  have hfresh : ∀ free ∈ heap.freeList, free.addr ≠ block.addr := fun free hfree =>
    (hheap.apart hfree hmem).addr_ne
  obtain ⟨front, back, hlist, hinsert, hfront, hback⟩ :=
    exists_finshBlockInsert block hheap.freeSorted hfresh
  refine ⟨front, back, hlist, hinsert, ?_, ?_⟩
  · intro free hfree
    have hlt := hfront free hfree
    have hfreeMem : free ∈ heap.freeList := hlist ▸ mem_append_left _ hfree
    have hapart := hheap.apart hfreeMem hmem
    have hblock := block.addr_lt_behind
    unfold Apart at hapart
    omega
  · intro free hfree
    have hlt := hback free hfree
    have hfreeMem : free ∈ heap.freeList := hlist ▸ mem_append_right _ hfree
    have hapart := hheap.apart hfreeMem hmem
    have hlt' := free.addr_lt_behind
    unfold Apart at hapart
    omega

theorem HeapTiles.finshHeapFree (hmem : block ∈ heap.allocateList) :
    HeapTiles (finshHeapFree block heap) := by
  obtain ⟨front, back, hlist, hinsert, hfront, hback⟩ := hheap.exists_place hmem
  have hgapped : Gapped (finshBlockMerge block.addr (finshBlockInsert block heap.freeList)) := by
    rw [hinsert]
    exact gapped_finshBlockMerge (hlist ▸ hheap.gapped) hfront hback
  have hinserted : ∀ free, free ∈ finshBlockInsert block heap.freeList ↔
      free = block ∨ free ∈ heap.freeList := by
    intro free
    rw [(finshBlockInsert_perm block heap.freeList).mem_iff, mem_cons]
  have hremoved := finshBlockRemove_perm (Separate.append_right hheap.separate).nodup hmem
  have hok := hheap.separate.finshHeapFree hmem
  constructor
  · exact hok
  · intro x hx
    obtain ⟨old, hold, hlow, hhigh⟩ := hheap.covers x hx
    have hcases : old ∈ finshBlockInsert block heap.freeList ∨
        old ∈ finshBlockRemove block heap.allocateList := by
      rw [hinserted]
      obtain hold | hold := mem_append.mp hold
      · exact .inl (.inr hold)
      · obtain rfl | hold := mem_cons.mp (hremoved.mem_iff.mp hold)
        · exact .inl (.inl rfl)
        · exact .inr hold
    obtain hold | hold := hcases
    · obtain ⟨larger, hlarger, hlow', hhigh'⟩ := exists_mem_finshBlockMerge block.addr hold
      exact ⟨larger, mem_append_left _ hlarger, hlow'.trans hlow, hhigh.trans_le hhigh'⟩
    · exact ⟨old, mem_append_right _ hold, hlow, hhigh⟩
  · exact hgapped.sorted
  · exact hheap.allocateSorted.sublist eraseP_sublist
  · obtain ⟨top, htop, hend⟩ := hheap.top
    obtain ⟨larger, hlarger, -, hhigh⟩ :=
      exists_mem_finshBlockMerge block.addr ((hinserted top).mpr (.inr htop))
    have hinside := hok.inside larger (mem_append_left _ hlarger)
    exact ⟨larger, hlarger, by omega⟩
  · exact hgapped.noPair
  · intro free hfree
    obtain hfree | hfree := mem_append.mp hfree
    · refine forall_finshBlockMerge (P := fun b => 4 ∣ b.addr ∧ 4 ∣ b.length) block.addr ?_ ?_
        free hfree
      · intro b b' hb hb'
        have hheader : 4 ∣ sizeofBlockHeader := by decide
        exact ⟨hb.1, (hb.2.add hb'.2).add hheader⟩
      · intro b hb
        obtain rfl | hb := (hinserted b).mp hb
        · exact hheap.aligned b (mem_append_right _ hmem)
        · exact hheap.aligned b (mem_append_left _ hb)
    · exact hheap.aligned free (mem_append_right _ (eraseP_sublist.subset hfree))

theorem HeapTiles.freeList_takeBlock
    (hlist : heap.freeList = front ++ header :: back)
    (hroom : size + sizeofBlockHeader ≤ header.length) :
    finshBlockInsert (finshBlockSplit header size) heap.freeList =
        front ++ header :: finshBlockSplit header size :: back ∧
      (takeBlock header size heap).freeList = front ++ finshBlockSplit header size :: back := by
  have hgapped : Gapped (front ++ header :: back) := hlist ▸ hheap.gapped
  obtain ⟨-, hbehind, hbefore⟩ := pairwise_append.mp hgapped
  have hback := (pairwise_cons.mp hbehind).1
  have haddr : (finshBlockSplit header size).addr = header.addr + sizeofBlockHeader + size := rfl
  have hrest : (finshBlockSplit header size).addr < header.behind := by
    unfold behind
    unfold sizeofBlockHeader at *
    lia
  have hfront : ∀ block ∈ front, block.addr < header.addr := fun block hmem =>
    block.addr_lt_behind.trans (hbefore block hmem header (.head _))
  have hinsert : finshBlockInsert (finshBlockSplit header size) (front ++ header :: back) =
      front ++ header :: finshBlockSplit header size :: back := by
    clear hlist hgapped hbefore
    induction front with
    | nil =>
      rw [nil_append, nil_append, finshBlockInsert, if_neg (by lia)]
      cases back with
      | nil => rfl
      | cons next back =>
        have hnext := hback next (.head _)
        rw [finshBlockInsert, if_pos (by lia)]
    | cons first front ih =>
      have hfirst := hfront first (.head _)
      rw [cons_append, finshBlockInsert, if_neg (by lia),
        ih fun block hmem => hfront block (.tail _ hmem), cons_append]
  rw [hlist]
  refine ⟨hinsert, ?_⟩
  unfold takeBlock
  rw [hlist, hinsert]
  exact finshBlockRemove_middle (fun block hmem => (hfront block hmem).ne) rfl

theorem HeapTiles.takeBlock (hmem : header ∈ heap.freeList)
    (hroom : size + sizeofBlockHeader ≤ header.length) (hsize : 4 ∣ size) :
    HeapTiles (takeBlock header size heap) := by
  obtain ⟨front, back, hlist⟩ := append_of_mem hmem
  obtain ⟨-, hfree⟩ := hheap.freeList_takeBlock hlist hroom
  have haddr : (finshBlockSplit header size).addr = header.addr + sizeofBlockHeader + size := rfl
  have hend : (finshBlockSplit header size).behind = header.behind := by
    unfold behind finshBlockSplit
    lia
  have hgapped : Gapped (Finsh.takeBlock header size heap).freeList := by
    have hold : Gapped (front ++ header :: back) := hlist ▸ hheap.gapped
    obtain ⟨hfront, hbehind, hbefore⟩ := pairwise_append.mp hold
    obtain ⟨hback, hrest⟩ := pairwise_cons.mp hbehind
    rw [hfree]
    refine pairwise_append.mpr ⟨hfront, ?_, ?_⟩
    · exact .cons (fun block hblock => hend.trans_lt (hback block hblock)) hrest
    · intro block hblock next hnext
      have hlow := hbefore block hblock header (.head _)
      obtain rfl | hnext := mem_cons.mp hnext
      · lia
      · exact hbefore block hblock next (.tail _ hnext)
  have hallocated : (Finsh.takeBlock header size heap).allocateList.Perm
      (⟨header.addr, size⟩ :: heap.allocateList) :=
    takeBlock_perm
  have holdFree : ∀ block ∈ heap.freeList,
      block = header ∨ block ∈ (Finsh.takeBlock header size heap).freeList := by
    intro block hblock
    rw [hlist] at hblock
    rw [hfree]
    simp only [mem_append, mem_cons] at hblock ⊢
    tauto
  constructor
  · exact hheap.separate.takeBlock hmem hroom
  · intro x hx
    obtain ⟨block, hblock, hlow, hhigh⟩ := hheap.covers x hx
    obtain hblock | hblock := mem_append.mp hblock
    · obtain rfl | hblock := holdFree block hblock
      · -- The block that is split covers what its two parts cover.
        by_cases hpart : x < (finshBlockSplit block size).addr
        · refine ⟨⟨block.addr, size⟩, mem_append_right _ (hallocated.mem_iff.mpr (.head _)),
            hlow, ?_⟩
          unfold behind
          lia
        · refine ⟨finshBlockSplit block size, mem_append_left _ ?_, by lia, by lia⟩
          rw [hfree]
          simp
      · exact ⟨block, mem_append_left _ hblock, hlow, hhigh⟩
    · exact ⟨block, mem_append_right _ (hallocated.mem_iff.mpr (.tail _ hblock)), hlow, hhigh⟩
  · exact hgapped.sorted
  · have hfresh : ∀ block ∈ heap.allocateList, block.addr ≠ header.addr := fun block hblock =>
      (hheap.apart hmem hblock).addr_ne.symm
    obtain ⟨before, after, hallocate, hinsert, hbefore, hafter⟩ :=
      exists_finshBlockInsert ⟨header.addr, size⟩ hheap.allocateSorted hfresh
    have hsorted := hheap.allocateSorted
    rw [hallocate] at hsorted
    obtain ⟨hsortedBefore, hsortedAfter, hcross⟩ := pairwise_append.mp hsorted
    change (finshBlockInsert ⟨header.addr, size⟩ heap.allocateList).Pairwise _
    rw [hinsert]
    refine pairwise_append.mpr ⟨hsortedBefore, .cons hafter hsortedAfter, ?_⟩
    intro block hblock next hnext
    obtain rfl | hnext := mem_cons.mp hnext
    · exact hbefore block hblock
    · exact hcross block hblock next hnext
  · obtain ⟨top, htop, htopEnd⟩ := hheap.top
    obtain rfl | htop := holdFree top htop
    · refine ⟨finshBlockSplit top size, ?_, hend.trans htopEnd⟩
      rw [hfree]
      simp
    · exact ⟨top, htop, htopEnd⟩
  · exact hgapped.noPair
  · obtain ⟨haligned, hlength⟩ := hheap.aligned header (mem_append_left _ hmem)
    have hsizeof : 4 ∣ sizeofBlockHeader := by decide
    intro block hblock
    obtain hblock | hblock := mem_append.mp hblock
    · rw [hfree] at hblock
      have hcases : block = finshBlockSplit header size ∨ block ∈ heap.freeList := by
        rw [hlist]
        simp only [mem_append, mem_cons] at hblock ⊢
        tauto
      obtain rfl | hold := hcases
      · exact ⟨(haligned.add hsizeof).add hsize, Nat.dvd_sub (Nat.dvd_sub hlength hsizeof) hsize⟩
      · exact hheap.aligned block (mem_append_left _ hold)
    · obtain rfl | hold := mem_cons.mp (hallocated.mem_iff.mp hblock)
      · exact ⟨haligned, hsize⟩
      · exact hheap.aligned block (mem_append_right _ hold)

end

def collect (used : FinshBlock → Bool) (blocks : List FinshBlock) (heap : FinshHeap) :
    FinshHeap :=
  blocks.foldl (fun heap block => if used block then heap else finshHeapFree block heap) heap

theorem HeapTiles.allocateList_finshHeapFree (hheap : HeapTiles heap)
    (hlist : heap.allocateList = front ++ block :: back) :
    (Finsh.finshHeapFree block heap).allocateList = front ++ back := by
  have hother : ∀ other ∈ front, other.addr ≠ block.addr := by
    intro other hother
    have hsorted := hheap.allocateSorted
    rw [hlist] at hsorted
    exact ((pairwise_append.mp hsorted).2.2 other hother block (.head _)).ne
  unfold Finsh.finshHeapFree
  rw [hlist]
  exact finshBlockRemove_middle hother rfl

theorem HeapTiles.collect {used : FinshBlock → Bool} {blocks : List FinshBlock}
    (kept : List FinshBlock) (hheap : HeapTiles heap) (hlist : heap.allocateList = kept ++ blocks) :
    HeapTiles (collect used blocks heap) := by
  induction blocks generalizing heap kept with
  | nil => exact hheap
  | cons block blocks ih =>
    rw [collect, foldl_cons]
    split
    · exact ih (kept ++ [block]) hheap (by rw [hlist, append_assoc]; rfl)
    · have hmem : block ∈ heap.allocateList := by simp [hlist]
      exact ih kept (hheap.finshHeapFree hmem) (hheap.allocateList_finshHeapFree hlist)

theorem dvd_heapAlignSize (size : ℕ) : 4 ∣ heapAlignSize size :=
  Word.dvd_alignUp (k := 2) (by decide)

def allocateWith (used : FinshBlock → Bool) (size : ℕ) (heap : FinshHeap) :
    Option FinshBlock × FinshHeap :=
  let size := heapAlignSize size
  match heap.freeList.find? (fun header => size + sizeofBlockHeader < header.length) with
  | some header => (some ⟨header.addr, size⟩, takeBlock header size heap)
  | none =>
    let heap := collect used heap.allocateList heap
    match heap.freeList.find? (fun header => size + sizeofBlockHeader ≤ header.length) with
    | some header => (some ⟨header.addr, size⟩, takeBlock header size heap)
    | none => (none, heap)

theorem HeapTiles.allocateWith (used : FinshBlock → Bool) (hheap : HeapTiles heap) :
    HeapTiles (allocateWith used size heap).2 := by
  have hsize := dvd_heapAlignSize size
  have hcollected : HeapTiles (Finsh.collect used heap.allocateList heap) := hheap.collect [] rfl
  unfold Finsh.allocateWith
  dsimp only
  split
  · rename_i header hfind
    have hlength : heapAlignSize size + sizeofBlockHeader < header.length := by
      simpa using find?_some hfind
    exact hheap.takeBlock (mem_of_find?_eq_some hfind) hlength.le hsize
  · split
    · rename_i header hfind
      have hlength : heapAlignSize size + sizeofBlockHeader ≤ header.length := by
        simpa using find?_some hfind
      exact hcollected.takeBlock (mem_of_find?_eq_some hfind) hlength hsize
    · exact hcollected

theorem HeapTiles.length_le (hheap : HeapTiles heap) : heap.blocks.length ≤ 16 := by
  have hnodup : (heap.blocks.map fun block => block.addr / 8).Nodup := by
    refine List.Pairwise.map _ ?_ hheap.separate.apart
    intro block next hapart
    unfold Apart behind sizeofBlockHeader at hapart
    lia
  have hlt : ∀ i ∈ heap.blocks.map fun block => block.addr / 8, i < 16 := by
    intro i hi
    obtain ⟨block, hmem, rfl⟩ := mem_map.mp hi
    have hinside := hheap.separate.inside block hmem
    unfold behind sizeofBlockHeader FINSH_HEAP_MAX at hinside
    lia
  have hle := Word.length_le_of_nodup hnodup (fun _ _ => Nat.zero_le _) hlt
  rw [length_map] at hle
  lia

end Heap

end RtThread.Finsh
