import RtThread.FinshHeapRefines

/-!
# Runs of the string heap

From its initialisation on, with any garbage collections in between, the words
of the heap represent two lists that tile it, and every call of
`finsh_heap_allocate` and `finsh_heap_free` ends.
-/

namespace RtThread.Finsh.HeapMem

open List
open Option (bind_some map_some)

section Represents

variable {base n size : ℕ} {used : ℕ → Bool} {words words' : Words} {s : State} {heap : FinshHeap}
  {header block x : FinshBlock} {list kept blocks front back : List FinshBlock}

/-- The memory holds the two lists of `heap`. -/
structure Represents (base : ℕ) (s : State) (heap : FinshHeap) : Prop where
  free : ListAt base s.words s.freeList heap.freeList
  allocated : ListAt base s.words s.allocateList heap.allocateList

theorem ListAt.frame {p : ℕ} (hlist : ListAt base words p list) (hsep : Separate (blocks ++ list))
    (hwords : ∀ a, (∀ block ∈ blocks, ¬InHeader base a block) → words' a = words a) :
    ListAt base words' p list := by
  apply hlist.congr
  intro a hblock
  obtain ⟨block, hmem, hin⟩ := hblock
  apply hwords
  intro other hother hin'
  have hapart := (pairwise_append.mp hsep.apart).2.2 other hother block hmem
  unfold FinshBlock.Apart FinshBlock.behind sizeofBlockHeader at hapart
  unfold InHeader headerAt at *
  omega

theorem finshHeapInit_represents (hbase : 0 < base) (words : Words) :
    Represents base (finshHeapInit base words) Finsh.finshHeapInit where
  free := by
    have hheader : headerAt base ⟨0, FINSH_HEAP_MAX - sizeofBlockHeader⟩ = base := Nat.add_zero base
    have hnil : ListAt base (finshHeapInit base words).words 0 [] := ⟨rfl, by simp⟩
    have hnext : nextAt (finshHeapInit base words).words base = 0 := nextAt_setNext_self
    have hlength : lengthAt (finshHeapInit base words).words base =
        FINSH_HEAP_MAX - sizeofBlockHeader := by
      unfold finshHeapInit
      rw [lengthAt_setNext (by omega), lengthAt_setLength_self]
    have hcons : ListAt base (finshHeapInit base words).words
        (headerAt base ⟨0, FINSH_HEAP_MAX - sizeofBlockHeader⟩)
        [⟨0, FINSH_HEAP_MAX - sizeofBlockHeader⟩] :=
      hnil.cons hbase (by rw [hheader, hnext]) (by rw [hheader, hlength])
    rw [hheader] at hcons
    exact hcons
  allocated := ⟨rfl, by simp [Finsh.finshHeapInit]⟩

/-- So does a release. -/
theorem finshHeapFree_spec (hbase : 0 < base) (hrep : Represents base s heap)
    (htiles : HeapTiles heap) (hmem : block ∈ heap.allocateList) (hn : 16 < n) :
    ∃ s', finshHeapFree n (headerAt base block) s = some s' ∧
      Represents base s' (Finsh.finshHeapFree block heap) := by
  obtain ⟨before, after, hlist⟩ := append_of_mem hmem
  obtain ⟨front, back, hfree, hinsert, hfront, hback⟩ := htiles.exists_place hmem
  have hcount := htiles.length_le
  have hsep : Separate ((front ++ back) ++ (before ++ block :: after)) := by
    rw [← hfree, ← hlist]
    exact htiles.separate
  have hblocks : heap.blocks = (front ++ back) ++ (before ++ block :: after) := by
    rw [← hfree, ← hlist]
    rfl
  rw [hblocks] at hcount
  simp only [length_append, length_cons] at hcount
  have hsepAlloc : Separate (before ++ block :: after) := hsep.append_right
  have hrepAlloc : ListAt base s.words s.allocateList (before ++ block :: after) :=
    hlist ▸ hrep.allocated
  have hrepFree : ListAt base s.words s.freeList (front ++ back) := hfree ▸ hrep.free
  -- The block is removed from the allocated ones.
  obtain ⟨p, w, hremove, hremoved, hremoveFrame, hlength⟩ :=
    finshBlockRemove_spec hrepAlloc hsepAlloc (n := n) (by lia)
  have hfreeKept : ListAt base w s.freeList (front ++ back) :=
    hrepFree.frame (hsep.perm perm_append_comm) hremoveFrame
  have hsepFree : Separate ((block :: (front ++ back)) ++ (before ++ after)) := by
    apply hsep.perm
    exact (perm_middle.append_left _).trans perm_middle
  have hsepInsert : Separate (block :: (front ++ back)) := hsepFree.append_left
  -- The top of the heap is free, so the block is not inserted at the end.
  have hend : back ≠ [] := by
    intro hnil
    obtain ⟨top, htop, htopEnd⟩ := htiles.top
    rw [hfree, hnil, append_nil] at htop
    have hbelow := hfront top htop
    have hinside := htiles.separate.inside block (mem_append_right _ hmem)
    have hlt := block.addr_lt_behind
    lia
  have hbelow : ∀ free ∈ front, free.addr < block.addr := fun free hmem =>
    free.addr_lt_behind.trans_le (hfront free hmem)
  have habove : ∀ free ∈ back, block.addr < free.addr := fun free hmem =>
    block.addr_lt_behind.trans_le (hback free hmem)
  obtain ⟨q, w', hinserts, hinserted, hinsertFrame⟩ := finshBlockInsert_spec hbase hfreeKept
    hsepInsert hlength hbelow habove (.inl hend) (n := n) (by lia)
  have hallocKept : ListAt base w' p (before ++ after) := hremoved.frame hsepFree hinsertFrame
  have hsepMerge : Separate ((front ++ block :: back) ++ (before ++ after)) :=
    hsepFree.perm (perm_middle.symm.append_right _)
  obtain ⟨w'', hmerges, hmerged, hmergeFrame⟩ :=
    finshBlockMerge_spec hinserted hsepMerge.append_left (n := n) (by lia)
  refine ⟨{ words := w'', freeList := q, allocateList := p }, ?_, ?_, ?_⟩
  · rw [finshHeapFree, hremove, bind_some, hinserts, bind_some, hmerges,
      map_some]
  · unfold Finsh.finshHeapFree
    rw [hinsert]
    exact hmerged
  · rw [htiles.allocateList_finshHeapFree hlist]
    exact hallocKept.frame hsepMerge hmergeFrame

def firstAt (base : ℕ) : List FinshBlock → ℕ
  | [] => 0
  | block :: _ => headerAt base block

theorem ListAt.eq_firstAt {p : ℕ} (hlist : ListAt base words p list) : p = firstAt base list := by
  cases list with
  | nil => exact hlist.linked
  | cons block list => exact hlist.linked.1

theorem ListAt.suffix {p : ℕ} (hlist : ListAt base words p (front ++ back)) :
    ListAt base words (firstAt base back) back := by
  induction front generalizing p with
  | nil => exact hlist.eq_firstAt ▸ hlist
  | cons first front ih => exact ih hlist.tail

/-- The collection frees the blocks not in use, one after the other. -/
theorem gcLoop_spec {k : ℕ} (used : ℕ → Bool) (kept : List FinshBlock) (hbase : 0 < base)
    (hrep : Represents base s heap) (htiles : HeapTiles heap)
    (hlist : heap.allocateList = kept ++ blocks) (hn : 16 < n) (hk : blocks.length < k) :
    ∃ s', gcLoop used n k (firstAt base blocks) s = some s' ∧
      Represents base s' (collect (fun block => used (headerAt base block)) blocks heap) := by
  induction blocks generalizing s heap kept k with
  | nil =>
    obtain ⟨k, rfl⟩ := Nat.exists_eq_succ_of_ne_zero (Nat.ne_of_gt hk)
    exact ⟨s, if_pos rfl, hrep⟩
  | cons block blocks ih =>
    obtain ⟨k, rfl⟩ := Nat.exists_eq_succ_of_ne_zero (Nat.ne_of_gt (Nat.zero_lt_of_lt hk))
    have hmem : block ∈ heap.allocateList := by simp [hlist]
    have hsome : headerAt base block ≠ 0 := hrep.allocated.headerAt_ne_zero hmem
    have hbehind : ListAt base s.words (firstAt base (block :: blocks)) (block :: blocks) :=
      (hlist ▸ hrep.allocated).suffix
    have hnext : nextAt s.words (headerAt base block) = firstAt base blocks :=
      hbehind.tail.eq_firstAt
    have hk' : blocks.length < k := Nat.lt_of_succ_lt_succ hk
    have hfirst : firstAt base (block :: blocks) = headerAt base block := rfl
    rw [hfirst, gcLoop, collect, foldl_cons, if_neg hsome, hnext]
    by_cases hused : used (headerAt base block) = true
    · have hsplit : heap.allocateList = (kept ++ [block]) ++ blocks := by
        rw [hlist, append_assoc]
        rfl
      rw [if_pos hused, if_pos hused]
      exact ih (kept ++ [block]) hrep htiles hsplit hk'
    · obtain ⟨s', hfree, hrep'⟩ := finshHeapFree_spec hbase hrep htiles hmem hn
      rw [if_neg hused, if_neg hused, hfree, bind_some]
      exact ih kept hrep' (htiles.finshHeapFree hmem) (htiles.allocateList_finshHeapFree hlist) hk'

theorem skipSmall_spec {p : ℕ} (small : ℕ → Bool) (hlist : ListAt base words p list)
    (hn : list.length < n) : skipSmall small words n p =
      some (match list.find? (fun block => !small block.length) with
        | some block => headerAt base block
        | none => 0) := by
  induction list generalizing p n with
  | nil =>
    obtain ⟨k, rfl⟩ := Nat.exists_eq_succ_of_ne_zero (Nat.ne_of_gt hn)
    have hp : p = 0 := hlist.linked
    rw [skipSmall, if_pos hp, hp]
    rfl
  | cons block list ih =>
    obtain ⟨k, rfl⟩ := Nat.exists_eq_succ_of_ne_zero (Nat.ne_of_gt (Nat.zero_lt_of_lt hn))
    have hp : p = headerAt base block := hlist.linked.1
    have hlength : lengthAt words (headerAt base block) = block.length :=
      hlist.lengths block (.head _)
    rw [skipSmall, hp, if_neg (hlist.headerAt_ne_zero (.head _)), hlength]
    cases hsmall : small block.length with
    | true =>
      rw [if_pos rfl, ih hlist.tail (Nat.lt_of_succ_lt_succ hn),
        find?_cons_of_neg (by simp [hsmall])]
    | false =>
      rw [if_neg Bool.false_ne_true, find?_cons_of_pos (by simp [hsmall])]

theorem finshBlockSplit_spec {p : ℕ} (hbase : 0 < base)
    (hlist : ListAt base words p (front ++ header :: back))
    (hsep : Separate (front ++ header :: back)) (hroom : size + sizeofBlockHeader ≤ header.length) :
    ListAt base (finshBlockSplit (headerAt base header) size words) p
        (front ++ ⟨header.addr, size⟩ :: Finsh.finshBlockSplit header size :: back) ∧
      ∀ a, ¬InHeader base a header → ¬InHeader base a (Finsh.finshBlockSplit header size) →
        finshBlockSplit (headerAt base header) size words a = words a := by
  generalize hrest : Finsh.finshBlockSplit header size = rest
  have hrestAt : headerAt base header + sizeofBlockHeader + size = headerAt base rest := by
    rw [← hrest]
    unfold headerAt Finsh.finshBlockSplit
    lia
  have hrestLength : header.length - sizeofBlockHeader - size = rest.length := by
    rw [← hrest]
    rfl
  have happart : headerAt base header + 8 ≤ headerAt base rest := by
    unfold sizeofBlockHeader at hrestAt
    lia
  have hlength := hlist.lengthAt_middle
  have hwords : finshBlockSplit (headerAt base header) size words =
      setNext (setNext (setLength (setLength words (headerAt base rest) rest.length)
        (headerAt base header) size) (headerAt base rest) (nextAt words (headerAt base header)))
        (headerAt base header) (headerAt base rest) := by
    unfold finshBlockSplit
    dsimp only
    rw [hrestAt, hlength, hrestLength, nextAt_setLength (by lia), nextAt_setLength (by lia)]
  rw [hwords]
  have hframe : ∀ a, ¬InHeader base a header → ¬InHeader base a rest →
      setNext (setNext (setLength (setLength words (headerAt base rest) rest.length)
        (headerAt base header) size) (headerAt base rest) (nextAt words (headerAt base header)))
        (headerAt base header) (headerAt base rest) a = words a := by
    intro a hheader hrest
    rw [setNext_of_not_inHeader hheader, setNext_of_not_inHeader hrest,
      setLength_of_not_inHeader hheader, setLength_of_not_inHeader hrest]
  refine ⟨?_, hframe⟩
  have hother : ∀ block ∈ front ++ back, ∀ a, InHeader base a block →
      ¬InHeader base a header ∧ ¬InHeader base a rest := by
    intro block hmem a hin
    have hblocks := (hsep.middle).split hroom
    rw [hrest] at hblocks
    refine ⟨fun hheader => not_inHeader hsep.middle hmem hheader hin, ?_⟩
    exact fun hrest => not_inHeader hblocks.tail hmem hrest hin
  have hkept : ∀ {list q}, (∀ block ∈ list, block ∈ front ++ back) → ListAt base words q list →
      ListAt base (setNext (setNext (setLength (setLength words (headerAt base rest) rest.length)
        (headerAt base header) size) (headerAt base rest) (nextAt words (headerAt base header)))
        (headerAt base header) (headerAt base rest)) q list := by
    intro list q hsub hq
    apply hq.congr
    intro a hblock
    obtain ⟨block, hmem, hin⟩ := hblock
    obtain ⟨hheader, hrest⟩ := hother block (hsub block hmem) a hin
    exact hframe a hheader hrest
  have hback : ListAt base _ (headerAt base rest) (rest :: back) :=
    (hkept (fun block hmem => mem_append_right _ hmem) hlist.behind).cons hbase
      (by rw [nextAt_setNext_of_ne (by lia), nextAt_setNext_self])
      (by rw [lengthAt_setNext (by lia), lengthAt_setNext (by lia),
        lengthAt_setLength_of_ne (by lia), lengthAt_setLength_self])
  apply hlist.replaceAfter hback nextAt_setNext_self
  · rw [lengthAt_setNext (by lia), lengthAt_setNext (by lia), lengthAt_setLength_self]
  · intro a hblock
    obtain ⟨block, hmem, hin⟩ := hblock
    obtain ⟨hheader, hrest⟩ := hother block (mem_append_left _ hmem) a hin
    exact hframe a hheader hrest

theorem ListAt.clearWords {p : ℕ} (block : FinshBlock) (hlist : ListAt base words p list)
    (hsep : ∀ other ∈ list, other.addr = block.addr ∨ block.Apart other) :
    ListAt base (clearWords words (headerAt base block + sizeofBlockHeader) block.length) p
      list := by
  apply hlist.congr
  intro a hother
  obtain ⟨other, hmem, hin⟩ := hother
  apply if_neg
  have happart := hsep other hmem
  unfold FinshBlock.Apart FinshBlock.behind sizeofBlockHeader at happart
  unfold InHeader headerAt at hin
  unfold headerAt sizeofBlockHeader
  omega

theorem takeHeader_spec (hbase : 0 < base) (hrep : Represents base s heap)
    (htiles : HeapTiles heap) (hmem : header ∈ heap.freeList)
    (hroom : size + sizeofBlockHeader ≤ header.length) (hsize : 4 ∣ size) (hn : 16 < n) :
    ∃ s', takeHeader n (headerAt base header) size s = some s' ∧
      Represents base s' (takeBlock header size heap) := by
  obtain ⟨front, back, hlist⟩ := append_of_mem hmem
  obtain ⟨-, hfreeList⟩ := htiles.freeList_takeBlock hlist hroom
  have hnew := htiles.takeBlock hmem hroom hsize
  have hcount := hnew.length_le
  generalize hrest : Finsh.finshBlockSplit header size = rest at hfreeList
  have hfresh : ∀ block ∈ heap.allocateList, block.addr ≠ header.addr := fun block hblock =>
    (htiles.apart hmem hblock).addr_ne.symm
  obtain ⟨before, after, hallocate, hinsert, hbefore, hafter⟩ :=
    exists_finshBlockInsert ⟨header.addr, size⟩ htiles.allocateSorted hfresh
  have hallocateList : (takeBlock header size heap).allocateList =
      before ++ ⟨header.addr, size⟩ :: after := hinsert
  have hblocks : (takeBlock header size heap).blocks =
      (front ++ rest :: back) ++ (before ++ ⟨header.addr, size⟩ :: after) := by
    rw [FinshHeap.blocks, hfreeList, hallocateList]
  rw [hblocks] at hcount
  simp only [length_append, length_cons] at hcount
  have hsep : Separate ((front ++ rest :: back) ++ (before ++ ⟨header.addr, size⟩ :: after)) :=
    hblocks ▸ hnew.separate
  have hsepBlock : Separate
      (⟨header.addr, size⟩ :: ((front ++ rest :: back) ++ (before ++ after))) :=
    hsep.perm ((perm_middle.append_left _).trans perm_middle)
  have hsepSplit : Separate ((front ++ ⟨header.addr, size⟩ :: rest :: back) ++ (before ++ after)) :=
    hsepBlock.perm (perm_middle.symm.append_right _)
  have hold : Separate (front ++ header :: back) := by
    rw [← hlist]
    exact htiles.separate.append_left
  have hfree : ListAt base s.words s.freeList (front ++ header :: back) := hlist ▸ hrep.free
  have hallocated : ListAt base s.words s.allocateList (before ++ after) :=
    hallocate ▸ hrep.allocated
  -- The block is split.
  obtain ⟨hsplit, hsplitFrame⟩ := finshBlockSplit_spec hbase hfree hold hroom
  rw [hrest] at hsplit hsplitFrame
  have hallocSplit := hallocated.frame hsepSplit fun a ha =>
    hsplitFrame a (ha ⟨header.addr, size⟩ (by simp)) (ha rest (by simp))
  -- It is removed from the free list, and its `next` is cleared.
  obtain ⟨p, w, hremove, hremoved, hremoveFrame, hlength⟩ :=
    finshBlockRemove_spec hsplit hsepSplit.append_left (n := n) (by omega)
  have hallocRemoved := hallocSplit.frame hsepSplit hremoveFrame
  have hsepFree : Separate ([⟨header.addr, size⟩] ++ (front ++ rest :: back)) :=
    (hsepBlock : Separate
      ((⟨header.addr, size⟩ :: (front ++ rest :: back)) ++ (before ++ after))).append_left
  have hsepInsert : Separate ([⟨header.addr, size⟩] ++ (before ++ after)) :=
    (hsepBlock.perm (.cons _ perm_append_comm) : Separate
      ((⟨header.addr, size⟩ :: (before ++ after)) ++ (front ++ rest :: back))).append_left
  have hclearFrame : ∀ a, (∀ block ∈ [(⟨header.addr, size⟩ : FinshBlock)],
      ¬InHeader base a block) → setNext w (headerAt base header) 0 a = w a := fun a ha =>
    setNext_of_not_inHeader (x := ⟨header.addr, size⟩) (ha _ (.head _))
  have hfreeCleared : ListAt base (setNext w (headerAt base header) 0) p (front ++ rest :: back) :=
    hremoved.frame hsepFree hclearFrame
  have hallocCleared : ListAt base (setNext w (headerAt base header) 0) s.allocateList
      (before ++ after) :=
    hallocRemoved.frame hsepInsert hclearFrame
  -- It is inserted in the list of allocated blocks.
  have hlengthCleared : lengthAt (setNext w (headerAt base header) 0)
      (headerAt base ⟨header.addr, size⟩) = size :=
    (lengthAt_setNext (Nat.ne_of_lt (Nat.lt_add_of_pos_right (by decide)))).trans hlength
  obtain ⟨q, w', hinserts, hinserted, hinsertFrame⟩ :=
    finshBlockInsert_spec hbase hallocCleared hsepInsert hlengthCleared hbefore hafter
      (.inr nextAt_setNext_self) (n := n) (by omega)
  have hfreeInserted : ListAt base w' p (front ++ rest :: back) := by
    apply hfreeCleared.frame _ hinsertFrame
    exact hsepBlock.perm (.cons _ perm_append_comm)
  have hapart : ∀ other ∈ (front ++ rest :: back) ++ (before ++ ⟨header.addr, size⟩ :: after),
      other.addr = header.addr ∨ FinshBlock.Apart ⟨header.addr, size⟩ other := by
    intro other hother
    have hcases : other = ⟨header.addr, size⟩ ∨
        other ∈ (front ++ rest :: back) ++ (before ++ after) := by
      simp only [mem_append, mem_cons] at hother ⊢
      tauto
    obtain rfl | hother := hcases
    · exact .inl rfl
    · exact .inr ((pairwise_cons.mp hsepBlock.apart).1 other hother)
  refine ⟨{ words := clearWords w' (headerAt base header + sizeofBlockHeader) size
            freeList := p
            allocateList := q }, ?_, ?_, ?_⟩
  · have hsame : headerAt base ⟨header.addr, size⟩ = headerAt base header := rfl
    rw [hsame] at hremove hinserts
    rw [takeHeader, hremove, bind_some, hinserts, map_some]
  · rw [hfreeList]
    exact hfreeInserted.clearWords ⟨header.addr, size⟩ fun other hother => hapart other (mem_append_left _ hother)
  · rw [hallocateList]
    exact hinserted.clearWords ⟨header.addr, size⟩ fun other hother => hapart other (mem_append_right _ hother)

/-- Allocation in memory follows allocation on the tiling. -/
theorem finshHeapAllocate_spec (used : ℕ → Bool) (size : ℕ) (hbase : 0 < base)
    (hrep : Represents base s heap) (htiles : HeapTiles heap) (hn : 16 < n) :
    ∃ p s', finshHeapAllocate used n size s = some (p, s') ∧
      Represents base s' (allocateWith (fun block => used (headerAt base block)) size heap).2 ∧
      p = match (allocateWith (fun block => used (headerAt base block)) size heap).1 with
        | some block => headerAt base block
        | none => 0 := by
  have hdvd := dvd_heapAlignSize size
  have hcount : ∀ {heap}, HeapTiles heap → heap.freeList.length < n ∧
      heap.allocateList.length < n := by
    intro heap htiles
    have hle := htiles.length_le
    rw [FinshHeap.blocks, length_append] at hle
    omega
  have hfits : (fun block : FinshBlock =>
      !decide (block.length ≤ heapAlignSize size + sizeofBlockHeader)) =
      fun block => decide (heapAlignSize size + sizeofBlockHeader < block.length) := by
    funext block
    rw [← decide_not]
    exact decide_eq_decide.mpr Nat.not_le
  have hfits' : (fun block : FinshBlock =>
      !decide (block.length < heapAlignSize size + sizeofBlockHeader)) =
      fun block => decide (heapAlignSize size + sizeofBlockHeader ≤ block.length) := by
    funext block
    rw [← decide_not]
    exact decide_eq_decide.mpr Nat.not_lt
  have hsearch := skipSmall_spec (fun length => length ≤ heapAlignSize size + sizeofBlockHeader)
    hrep.free (hcount htiles).1
  rw [hfits] at hsearch
  unfold finshHeapAllocate allocateWith
  dsimp only
  rw [hsearch, bind_some]
  cases hfind : heap.freeList.find?
      (fun block => decide (heapAlignSize size + sizeofBlockHeader < block.length)) with
  | some header =>
    have hmem := mem_of_find?_eq_some hfind
    have hroom : heapAlignSize size + sizeofBlockHeader < header.length := by
      simpa using find?_some hfind
    obtain ⟨s', htake, hrep'⟩ := takeHeader_spec hbase hrep htiles hmem hroom.le hdvd hn
    rw [if_pos (hrep.free.headerAt_ne_zero hmem), htake, map_some]
    exact ⟨_, _, rfl, hrep', rfl⟩
  | none =>
    obtain ⟨collected, hgc, hrepGc⟩ := gcLoop_spec used [] hbase hrep htiles
      (nil_append _).symm hn (hcount htiles).2
    have htilesGc : HeapTiles
        (collect (fun block => used (headerAt base block)) heap.allocateList heap) :=
      htiles.collect [] rfl
    have hsearchGc := skipSmall_spec
      (fun length => length < heapAlignSize size + sizeofBlockHeader) hrepGc.free
      (hcount htilesGc).1
    rw [hfits'] at hsearchGc
    rw [← hrep.allocated.eq_firstAt] at hgc
    rw [if_neg (not_not.mpr rfl), finshHeapGc, hgc, bind_some, hsearchGc, bind_some]
    cases hfindGc : (collect (fun block => used (headerAt base block)) heap.allocateList
        heap).freeList.find?
        (fun block => decide (heapAlignSize size + sizeofBlockHeader ≤ block.length)) with
    | some header =>
      have hmem := mem_of_find?_eq_some hfindGc
      have hroom : heapAlignSize size + sizeofBlockHeader ≤ header.length := by
        simpa using find?_some hfindGc
      obtain ⟨s', htake, hrep'⟩ := takeHeader_spec hbase hrepGc htilesGc hmem hroom hdvd hn
      rw [if_pos (hrepGc.free.headerAt_ne_zero hmem), htake, map_some]
      exact ⟨_, _, rfl, hrep', rfl⟩
    | none =>
      rw [if_neg (not_not.mpr rfl)]
      exact ⟨_, _, rfl, hrepGc, rfl⟩

end Represents

section Runs

inductive Call
  | allocate (used : ℕ → Bool) (size : ℕ)
  | free (header : ℕ)
  | write (header index value : ℕ)

def Live (s : State) (header : ℕ) : Prop :=
  ∃ headers, LinkedTo (nextAt s.words) 0 s.allocateList headers ∧ header ∈ headers

def Call.Allowed (s : State) : Call → Prop
  | .allocate _ size => size ≤ FINSH_STRING_MAX + 1
  | .free header => Live s header
  | .write header index _ => Live s header ∧ 4 * index < lengthAt s.words header

def Call.run (n : ℕ) : Call → State → Option State
  | .allocate used size, s => (finshHeapAllocate used n size s).map Prod.snd
  | .free header, s => finshHeapFree n header s
  | .write header index value, s => some { s with
      words := Function.update s.words (header + sizeofBlockHeader + 4 * index) value }

inductive Reached (base n : ℕ) : State → Prop
  | init (words : Words) : Reached base n (finshHeapInit base words)
  | call {s s' : State} {call : Call} (hreached : Reached base n s) (hallowed : call.Allowed s)
      (hrun : call.run n s = some s') : Reached base n s'

variable {base n : ℕ} {s s' : State} {heap : FinshHeap} {header : ℕ} {call : Call}

theorem Represents.live_iff (hrep : Represents base s heap) :
    Live s header ↔ ∃ block ∈ heap.allocateList, headerAt base block = header := by
  constructor
  · rintro ⟨headers, hlinked, hmem⟩
    rw [hlinked.unique hrep.allocated.linked, mem_map] at hmem
    exact hmem
  · rintro ⟨block, hmem, rfl⟩
    exact ⟨_, hrep.allocated.linked, mem_map_of_mem hmem⟩

/-- A call on the memory returns and keeps the tiling. -/
theorem call_spec (hbase : 0 < base) (hn : 16 < n) (hrep : Represents base s heap)
    (htiles : HeapTiles heap) (hallowed : call.Allowed s) :
    ∃ s', call.run n s = some s' ∧ ∃ heap', Represents base s' heap' ∧ HeapTiles heap' := by
  cases call with
  | allocate used size =>
    obtain ⟨p, s', hresult, hrep', -⟩ := finshHeapAllocate_spec used size hbase hrep htiles hn
    refine ⟨s', ?_, _, hrep', htiles.allocateWith _⟩
    rw [Call.run, hresult, map_some]
  | free header =>
    obtain ⟨block, hmem, rfl⟩ := hrep.live_iff.mp hallowed
    obtain ⟨s', hresult, hrep'⟩ := finshHeapFree_spec hbase hrep htiles hmem hn
    exact ⟨s', hresult, _, hrep', htiles.finshHeapFree hmem⟩
  | write header index value =>
    obtain ⟨hlive, hindex⟩ := hallowed
    obtain ⟨block, hmem, rfl⟩ := hrep.live_iff.mp hlive
    rw [hrep.allocated.lengths block hmem] at hindex
    refine ⟨_, rfl, heap, ?_, htiles⟩
    have hkept : ∀ other ∈ heap.blocks, ∀ a, InHeader base a other →
        Function.update s.words (headerAt base block + sizeofBlockHeader + 4 * index) value a =
          s.words a := by
      intro other hother a hin
      apply Function.update_of_ne
      have hcases : other = block ∨ other.Apart block := by
        by_cases hsame : other = block
        · exact .inl hsame
        · obtain ⟨front, back, hblocks⟩ :=
            append_of_mem (mem_append_right heap.freeList hmem)
          have hsep : Separate (front ++ block :: back) := hblocks ▸ htiles.separate
          have hrest : other ∈ front ++ back := by
            have hall : other ∈ front ++ block :: back := hblocks ▸ hother
            simp only [mem_append, mem_cons] at hall ⊢
            tauto
          exact .inr ((pairwise_cons.mp hsep.middle.apart).1 other hrest).symm
      unfold InHeader headerAt at hin
      unfold headerAt sizeofBlockHeader
      obtain rfl | hapart := hcases
      · lia
      · unfold FinshBlock.Apart FinshBlock.behind sizeofBlockHeader at hapart
        lia
    constructor
    · apply hrep.free.congr
      rintro a ⟨other, hother, hin⟩
      exact hkept other (mem_append_left _ hother) a hin
    · apply hrep.allocated.congr
      rintro a ⟨other, hother, hin⟩
      exact hkept other (mem_append_right _ hother) a hin

theorem Reached.represents (hbase : 0 < base) (hn : 16 < n) (hreached : Reached base n s) :
    ∃ heap, Represents base s heap ∧ HeapTiles heap := by
  induction hreached with
  | init words => exact ⟨_, finshHeapInit_represents hbase words, heapTiles_init⟩
  | call hreached hallowed hrun ih =>
    obtain ⟨heap, hrep, htiles⟩ := ih
    obtain ⟨next, hnext, hnextRep⟩ := call_spec hbase hn hrep htiles hallowed
    rw [hrun, Option.some_inj] at hnext
    rw [hnext]
    exact hnextRep

/-- After any calls the two lists of the heap tile it as they should; and no loop takes more
than 17 rounds. -/
theorem heap_tiles_of_reached (base n : ℕ) (s : State) (hbase : 0 < base) (hn : 16 < n)
    (hreached : Reached base n s) : (∃ heap, Represents base s heap ∧ HeapTiles heap) ∧
      ∀ call : Call, call.Allowed s → ∃ s', call.run n s = some s' := by
  obtain ⟨heap, hrep, htiles⟩ := hreached.represents hbase hn
  refine ⟨⟨heap, hrep, htiles⟩, fun call hallowed => ?_⟩
  obtain ⟨s', hrun, -⟩ := call_spec hbase hn hrep htiles hallowed
  exact ⟨s', hrun⟩

theorem heap_tiles_after_allocation :
    ∃ s', (Call.allocate (fun _ => false) 60).run 17 (finshHeapInit 8 fun _ => 0) = some s' ∧
      ∃ heap, Represents 8 s' heap ∧ HeapTiles heap := by
  have hallowed : (Call.allocate (fun _ => false) 60).Allowed (finshHeapInit 8 fun _ => 0) := by
    unfold Call.Allowed FINSH_STRING_MAX
    omega
  obtain ⟨s', hrun⟩ := (heap_tiles_of_reached 8 17 (finshHeapInit 8 fun _ => 0) (by decide)
    (by decide) (.init _)).2 _ hallowed
  exact ⟨s', hrun, (heap_tiles_of_reached 8 17 s' (by decide) (by decide)
    (.call (.init _) hallowed hrun)).1⟩

end Runs

end RtThread.Finsh.HeapMem
