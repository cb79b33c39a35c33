import RtThread.MemheapRelease

/-!
# Resizing items in place

`rt_memheap_realloc` moves the header of the free item behind a growing item,
and cuts a free item off a shrinking one.  Both end by building a new free item
behind an item in use.
-/

namespace RtThread.MemHeap

open List Word

structure ListsInv {a : AlignSize} (area : Area a) (m : Memory) (bs fs : List ℕ) : Prop where
  ordered : Ordered a area.start area.tail bs
  rings : Rings m (itemSet area.head area.tail bs) area.tail area.head bs fs
  free_iff : ∀ i, i ∈ fs ↔ i ∈ bs ∧ isUsed m i = false
  tail_used : isUsed m area.tail = true
  noFreePair : NoFreePair m (bs ++ [area.tail])
  poolPtr_eq : ∀ i ∈ bs, get m .poolPtr i = area.heap

variable {a : AlignSize} {area : Area a} {m m' : Memory} {s : State} {x y n : ℕ}
  {bs fs before after : List ℕ}

theorem PoolInv.lists (hinv : PoolInv area s bs fs) : ListsInv area s.memory bs fs := by
  constructor
  · exact hinv.ordered
  · exact hinv.rings
  · exact hinv.free_iff
  · exact hinv.tail_used
  · exact hinv.noFreePair
  · exact hinv.poolPtr_eq

theorem ListsInv.dropFree (hlists : ListsInv area m (before ++ x :: y :: after) fs)
    (hx : isUsed m x = true) (hy : isUsed m y = false) :
    ListsInv area (unlinkBlock (unlinkFree m y) y) (before ++ x :: after) (fs.erase y) ∧
      KeepsFields m (unlinkBlock (unlinkFree m y) y)
        (itemSet area.head area.tail (before ++ x :: y :: after))
        [.next, .prev, .nextFree, .prevFree] ∧
      get (unlinkBlock (unlinkFree m y) y) .next x = get m .next y ∧
      ∀ j ∈ before ++ x :: y :: after, j ≠ x →
        get (unlinkBlock (unlinkFree m y) y) .next j = get m .next j := by
  have hnodup := hlists.ordered.nodup
  have hyfs : y ∈ fs := (hlists.free_iff y).mpr ⟨by simp, hy⟩
  have hfsNodup := (nodup_cons.mp hlists.rings.freeRing.nodup).2
  rcases hlists.rings.unlinkFree hyfs with ⟨hunlinked, hkeeps₁⟩
  have hymem : y ∈ area.tail :: (before ++ x :: y :: after) := by simp
  rcases hunlinked.dropped hlists.ordered (hunlinked.unlinkBlock_removes hymem)
    with ⟨hdropped, hkeeps₂, hnextx, hframe⟩
  generalize unlinkBlock (unlinkFree m y) y = m' at *
  have hall : KeepsFields m m' (itemSet area.head area.tail (before ++ x :: y :: after))
      [.next, .prev, .nextFree, .prevFree] := by
    intro j hj f hf
    simp only [mem_cons, not_mem_nil, or_false, not_or] at hf
    rw [hkeeps₂ j hj f (by simp [hf.1, hf.2.1]), hkeeps₁ j hj f (by simp [hf.2.2.1, hf.2.2.2])]
  have hflag : ∀ i ∈ itemSet area.head area.tail (before ++ x :: y :: after),
      isUsed m' i = isUsed m i :=
    fun i hi => hall.isUsed_eq (by decide) hi
  have hnext₁ : ∀ i ∈ before ++ x :: y :: after, get (unlinkFree m y) .next i = get m .next i :=
    fun i hi => hkeeps₁ i (item_mem hi) _ (by decide)
  refine ⟨?_, hall, ?_, ?_⟩
  · constructor
    · exact hlists.ordered.remove
    · apply hdropped.mono itemSet_remove_subset
      · intro i hi
        rw [mem_itemSet]
        exact .inr (mem_cons.mp hi)
      · intro i hi
        rw [mem_itemSet]
        rcases mem_cons.mp hi with hi | hi
        · exact .inl hi
        · have hi' := hfsNodup.mem_erase_iff.mp hi
          have hbs := ((hlists.free_iff i).mp hi'.2).1
          exact .inr (.inr ((mem_remove hnodup).mpr ⟨hbs, hi'.1⟩))
    · intro i
      rw [hfsNodup.mem_erase_iff, hlists.free_iff i, mem_remove hnodup]
      constructor
      · rintro ⟨hne, hi, hfree⟩
        exact ⟨⟨hi, hne⟩, (hflag i (item_mem hi)).trans hfree⟩
      · rintro ⟨⟨hi, hne⟩, hfree⟩
        exact ⟨hne, hi, (hflag i (item_mem hi)).symm.trans hfree⟩
    · rw [hflag _ tail_mem]
      exact hlists.tail_used
    · have hpair := hlists.noFreePair
      have hshape : before ++ x :: y :: after ++ [area.tail] =
          before ++ x :: y :: (after ++ [area.tail]) := by simp
      rw [hshape] at hpair
      rw [append_assoc, cons_append]
      rcases isChain_append_cons_cons.mp hpair with ⟨hleft, -, hright⟩
      have hshort : NoFreePair m (before ++ x :: (after ++ [area.tail])) := by
        rcases exists_cons_of_append_head after area.tail with ⟨z, l, hz, -⟩
        have htail := hright.tail
        rw [tail_cons, hz] at htail
        rw [hz]
        exact isChain_append_cons_cons.mpr ⟨hleft, .inl hx, htail⟩
      exact hshort.kept hflag fun i hi => by grind [mem_itemSet]
    · intro i hi
      have hi' := ((mem_remove hnodup).mp hi).1
      rw [hall i (item_mem hi') _ (by decide)]
      exact hlists.poolPtr_eq i hi'
  · rw [hnextx]
    exact hnext₁ y (by simp)
  · intro j hj hne
    rw [hframe j (item_mem hj) hne]
    exact hnext₁ j hj

theorem freeSum_drop (hnodup : (before ++ x :: y :: after).Nodup) (hx : isUsed m x = true)
    (hx' : isUsed m' x = true) (hy : isUsed m y = false)
    (hside : ∀ j ∈ before ++ x :: y :: after, j ≠ x →
      isUsed m' j = isUsed m j ∧ get m' .next j = get m .next j) :
    freeSum a m' (before ++ x :: after) + (get m .next y - y - memheapSize a) =
      freeSum a m (before ++ x :: y :: after) := by
  have hreplace := freeSum_replace (a := a) before [y] [x] after hnodup hside
  simp only [cons_append, nil_append, freeSum_cons, freeSum_nil, freeBytes, hx, hx',
    hy, Bool.false_eq_true, if_false, if_true] at hreplace
  omega

theorem ListsInv.insertItem (hlists : ListsInv area m (before ++ x :: after) fs)
    (hx : isUsed m x = true) (hxn : x + memheapSize a ≤ n)
    (hnz : n + memheapSize a ≤ get m .next x) : let m' := insertItem m area.heap x n
    Loose area m' (before ++ [x]) n after fs ∧ n ∉ fs ∧ isUsed m' x = true ∧ get m' .next x = n ∧
      get m' .next n = get m .next x ∧
      freeSum a m' (before ++ [x] ++ n :: after) =
        freeSum a m (before ++ x :: after) + (get m .next x - n - memheapSize a) ∧
      SameUsed m (before ++ x :: after) m' (before ++ [x] ++ n :: after) ∧
      ∀ j ∈ itemSet area.head area.tail (before ++ x :: after), isUsed m' j = isUsed m j := by
  intro m'
  rcases hlists.rings.insertGap hlists.ordered area.headOutside area.heap_lt rfl hxn hnz
    with ⟨hrings, hordered, hnot, hfreen, hpooln, hnextn, hnextx, hframe⟩
  have hflag : ∀ i ∈ itemSet area.head area.tail (before ++ x :: after), isUsed m' i = isUsed m i :=
    fun i hi => (hframe i hi).1
  have hnfs : n ∉ fs := by
    intro hmem
    exact hnot (item_mem ((hlists.free_iff n).mp hmem).1)
  have hshape : before ++ [x] ++ n :: after = before ++ x :: n :: after := by simp
  have hmem : ∀ i, i ∈ before ++ x :: n :: after ↔ i = n ∨ i ∈ before ++ x :: after := by
    intro i
    grind
  have hpair := hlists.noFreePair
  rw [append_assoc, cons_append] at hpair
  have hpairs := isChain_append.mp hpair
  rw [hshape]
  refine ⟨?_, hnfs, ?_, hnextx, hnextn, ?_, ?_, hflag⟩
  · constructor
    · rw [hshape]
      exact hordered
    · rw [hshape]
      exact hrings
    · exact hfreen
    · intro i hin
      rw [hshape, hmem, hlists.free_iff]
      constructor
      · rintro ⟨hi, hfree⟩
        exact ⟨.inr hi, (hflag i (item_mem hi)).trans hfree⟩
      · rintro ⟨hi, hfree⟩
        have hi' := hi.resolve_left hin
        exact ⟨hi', (hflag i (item_mem hi')).symm.trans hfree⟩
    · rw [hflag _ tail_mem]
      exact hlists.tail_used
    · have hleft : NoFreePair m (before ++ [x]) := by
        rcases exists_cons_of_append_head after area.tail with ⟨z, l, hz, -⟩
        rw [hz] at hpair
        exact (isChain_append_cons_cons.mp hpair).1
      exact hleft.kept hflag fun i hi => item_mem (by grind)
    · exact NoFreePair.kept hpairs.2.1.tail hflag fun i hi => by grind [mem_itemSet]
    · intro i hi
      rw [hshape, hmem] at hi
      rcases hi with hi | hi
      · rw [hi]
        exact hpooln
      · rw [(hframe i (item_mem hi)).2.1]
        exact hlists.poolPtr_eq i hi
  · rw [hflag x (item_mem (by simp))]
    exact hx
  · have hx' : isUsed m' x = true := (hflag x (item_mem (by simp))).trans hx
    have hn' : isUsed m' n = false := hfreen
    have hnext' : get m' .next n = get m .next x := hnextn
    have hreplace := freeSum_replace (a := a) before [] [x, n] after hlists.ordered.nodup
      fun i hi hix => ⟨hflag i (item_mem hi), (hframe i (item_mem hi)).2.2 hix⟩
    simp only [cons_append, nil_append, freeSum_cons, freeSum_nil, freeBytes, hx, hx',
      hn', hnext', Bool.false_eq_true, if_false, if_true] at hreplace
    lia
  · intro i
    rw [hmem]
    constructor
    · rintro ⟨hi, hused⟩
      have hin : i ≠ n := by
        intro heq
        rw [heq, show isUsed m' n = false from hfreen] at hused
        cases hused
      have hi' := hi.resolve_left hin
      exact ⟨hi', (hflag i (item_mem hi')).symm.trans hused⟩
    · rintro ⟨hi, hused⟩
      exact ⟨.inr hi, (hflag i (item_mem hi)).trans hused⟩

theorem PoolInv.next_of_used (hinv : PoolInv area s bs fs) (hbs : bs = before ++ x :: after)
    (hfree : isUsed s.memory (get s.memory .next x) = false) :
    ∃ rest, after = get s.memory .next x :: rest := by
  exact hinv.rings.next_free hbs hinv.tail_used hfree

theorem PoolInv.growItem {newsize : ℕ} (hinv : PoolInv area s bs fs) (hx : x ∈ bs)
    (hused : isUsed s.memory x = true) (hfree : isUsed s.memory (get s.memory .next x) = false)
    (hgrow : memitemSize a s.memory x < newsize) (hroom : newsize + miniAlloc <
      memitemSize a s.memory (get s.memory .next x) + memitemSize a s.memory x) :
    ∃ bs' fs', PoolInv area (growItem a s area.heap x (memitemSize a s.memory x) newsize) bs' fs' ∧
      SameUsed s.memory bs
        (MemHeap.growItem a s area.heap x (memitemSize a s.memory x) newsize).memory bs' := by
  rcases append_of_mem hx with ⟨before, after₀, hbs⟩
  rcases hinv.next_of_used hbs hfree with ⟨after, hafter⟩
  generalize hy : get s.memory .next x = y at *
  rw [hafter] at hbs
  have hbs' : bs = (before ++ [x]) ++ y :: after := by simp [hbs]
  have hymem : y ∈ bs := by simp [hbs]
  rcases hinv.item_bounds hx with ⟨hsizex, hgapx, -⟩
  rcases hinv.item_bounds hymem with ⟨hsizey, hgapy, hendy⟩
  rw [hsizex, hy] at hgrow hroom
  rw [hsizey] at hroom
  rw [hy] at hgapx
  have hold : sub32 newsize (y - x - memheapSize a) = newsize - (y - x - memheapSize a) :=
    sub32_eq_of_le (by lia) (by lia)
  have hptr : add32 (x + memheapSize a) newsize = x + memheapSize a + newsize :=
    add32_eq_of_lt (by lia)
  have hlists := hinv.lists
  rw [hbs] at hlists
  have hnodup := hlists.ordered.nodup
  rcases hlists.dropFree hused hfree with ⟨hlists₁, hkeeps₁, hnextx₁, hframe₁⟩
  unfold MemHeap.growItem
  simp only [hy, hsizex, hold, hptr, hinv.freeList_eq]
  generalize unlinkBlock (unlinkFree s.memory y) y = m₁ at *
  have hflag₁ : ∀ i ∈ bs, isUsed m₁ i = isUsed s.memory i := by
    intro i hi
    rw [hbs] at hi
    exact hkeeps₁.isUsed_eq (by decide) (item_mem hi)
  have hused₁ : isUsed m₁ x = true := (hflag₁ x hx).trans hused
  have hsum₁ := freeSum_drop (a := a) hnodup hused hused₁ hfree
    (fun j hj hne => ⟨hflag₁ j (hbs ▸ hj), hframe₁ j hj hne⟩)
  have hsame₁ : SameUsed s.memory bs m₁ (before ++ x :: after) := by
    have hkeeps : KeepsFields s.memory m₁ (itemSet area.head area.tail (before ++ x :: after))
        [.next, .prev, .nextFree, .prevFree] :=
      fun j hj => hkeeps₁ j (itemSet_remove_subset hj)
    rw [hbs]
    exact (sameUsed_remove hnodup hfree).trans (hkeeps.sameUsed (by decide))
  rcases hlists₁.insertItem (n := x + memheapSize a + newsize) hused₁ (by lia) (by lia)
    with ⟨hloose, hnfs, husedx, hnextx, hnextn, hsum₂, hsame₂, hflag₂⟩
  have hright : ∀ z l, after ++ [area.tail] = z :: l →
      isUsed (insertItem m₁ area.heap x (x + memheapSize a + newsize)) z = true := by
    intro z l hz
    have hzmem : z ∈ after ++ [area.tail] := by simp [hz]
    have hzA : z ∈ itemSet area.head area.tail (before ++ x :: after) := by
      rw [mem_itemSet]
      grind
    have hpair := hlists.noFreePair
    have hshape : before ++ x :: y :: after ++ [area.tail] =
        (before ++ [x]) ++ y :: z :: l := by simp [← hz]
    rw [hshape] at hpair
    rw [hflag₂ z hzA, hkeeps₁.isUsed_eq (by decide) (itemSet_remove_subset hzA)]
    exact hpair.used_of_free hfree
  generalize insertItem m₁ area.heap x (x + memheapSize a + newsize) = m₂ at *
  rcases hinv.available_le with ⟨havailable, hpool⟩
  have havailableEq := hinv.available_eq
  have hpoolEq := hinv.poolSize_eq
  rw [hbs] at havailable havailableEq
  rcases charge_spec (s.heaps area.heap) (newsize - (y - x - memheapSize a))
    (by lia) (by lia) (by lia) with ⟨hcharge, hchargePool, hchargeList, hchargeMax⟩
  have hinsert : x + memheapSize a + newsize ∈ fs.erase y ↔ true = false := by
    simp [hnfs]
  have hleft : ∀ l q, before ++ [x] = l ++ [q] → isUsed m₂ q = true := by
    intro l q hlast
    rw [← (append_inj_right' hlast rfl |> singleton_inj.mp)]
    exact husedx
  rcases hloose.finish (s := s) (h := charge (s.heaps area.heap)
      (newsize - (y - x - memheapSize a))) hinsert hleft hright (hchargeList.trans hinv.freeList_eq)
    (hchargePool.trans hpoolEq) (by lia) hchargeMax
    with ⟨⟨fs', hinv'⟩, hsame₃, -⟩
  exact ⟨_, fs', hinv', (hsame₁.trans hsame₂).trans hsame₃⟩

theorem Loose.mergeSplit {available : ℕ} (hloose : Loose area m before n after fs)
    (havailable : available + (get m .next n - n - memheapSize a) =
      freeSum a m (before ++ n :: after)) :
    let r := mergeSplit a m n available
    r.1 = (MemHeap.mergeRight a m n (freeSum a m (before ++ n :: after))).1 ∧
      r.2 + (get r.1 .next n - n - memheapSize a) =
        (MemHeap.mergeRight a m n (freeSum a m (before ++ n :: after))).2 := by
  intro r
  unfold MemHeap.mergeRight
  cases hused : isUsed m (get m .next n) with
  | true =>
    have hr : r = (m, available) := if_pos hused
    rw [hr]
    exact ⟨rfl, havailable⟩
  | false =>
    have hr : r = (MemHeap.absorbNext m n (get m .next n),
        sub32 available (memitemSize a m (get m .next n))) := by
      apply if_neg
      simp [hused]
    rcases hloose.rings.next_free rfl hloose.tail_used hused with ⟨rest, hafter⟩
    rw [hr]
    generalize hnext : get m .next n = y at *
    subst hafter
    have hymem : y ∈ before ++ n :: y :: rest := by simp
    have hshape : before ++ n :: y :: rest = (before ++ [n]) ++ y :: rest := by simp
    have hsizey := hloose.rings.memitemSize_eq hloose.ordered hymem
    rcases hloose.rings.around hloose.ordered hshape with ⟨-, -, hbelow, hgap, -, hle⟩
    have hny := hbelow n (by simp)
    have hbytes : freeBytes a m n + freeBytes a m y ≤ freeSum a m (before ++ n :: y :: rest) := by
      rw [freeSum_append, freeSum_cons, freeSum_cons]
      lia
    have hsumLt := hloose.rings.freeSum_le hloose.ordered
    have hend := area.tail_fits
    have hsize := twentyFour_le_memheapSize a
    simp only [freeBytes, hused, hloose.free, Bool.false_eq_true, if_false, hnext] at hbytes
    rcases hloose.absorbNext hused with ⟨-, -, hnextn, -⟩
    rw [hloose.add_header, hsizey, hnextn, sub32_eq_of_le (by lia) (by lia)]
    refine ⟨rfl, ?_⟩
    lia

theorem PoolInv.shrinkItem {newsize : ℕ} (hinv : PoolInv area s bs fs) (hx : x ∈ bs)
    (hused : isUsed s.memory x = true)
    (hroom : newsize + memheapSize a + miniAlloc < memitemSize a s.memory x) :
    ∃ bs' fs', PoolInv area (shrinkItem a s area.heap x newsize) bs' fs' ∧
      SameUsed s.memory bs (MemHeap.shrinkItem a s area.heap x newsize).memory bs' := by
  rcases append_of_mem hx with ⟨before, after, hbs⟩
  rcases hinv.item_bounds hx with ⟨hsizex, hgapx, hendx⟩
  have hsize := twentyFour_le_memheapSize a
  rw [hsizex] at hroom
  have hptr : add32 (add32 x newsize) (memheapSize a) = x + newsize + memheapSize a := by
    rw [add32_eq_of_lt (x := x) (by lia), add32_eq_of_lt (by lia)]
  have hlists := hinv.lists
  rw [hbs] at hlists
  rcases hlists.insertItem (n := x + newsize + memheapSize a) hused (by lia) (by lia)
    with ⟨hloose₁, hnfs, husedx, hnextx, hnextn, hsum₁, hsame₁, hflag₁⟩
  unfold MemHeap.shrinkItem
  simp only [hptr, hinv.freeList_eq]
  generalize x + newsize + memheapSize a = n at *
  generalize insertItem s.memory area.heap x n = m₁ at *
  have havailableEq := hinv.available_eq
  have hmaxUsed := hinv.maxUsed_le
  rw [hbs] at havailableEq
  have hapart : (s.heaps area.heap).availableSize + (get m₁ .next n - n - memheapSize a) =
        freeSum a m₁ (before ++ [x] ++ n :: after) := by lia
  rcases hloose₁.mergeSplit hapart with ⟨hmerged, havailable⟩
  rcases hloose₁.mergeRight with
    ⟨after', fs', hloose₂, hsum₂, hle₂, hinsert₂, hright₂, hflag₂, hsame₂⟩
  generalize MemHeap.mergeSplit a m₁ n (s.heaps area.heap).availableSize = r at *
  rw [← hmerged] at hloose₂ hsum₂ hright₂ hflag₂ hsame₂
  rw [← havailable] at hsum₂ hle₂
  have hnfs₂ : n ∉ fs' := fun hmem => hnfs (hinsert₂.mp hmem)
  have hnmem : n ∈ before ++ [x] ++ n :: after' := by simp
  have hsizen : memitemSize a (pushFree r.1 area.head n) n =
      get r.1 .next n - n - memheapSize a := by
    have hkeeps := (hloose₂.pushFree hnfs₂).2
    have hnext := hkeeps n (item_mem hnmem) .next (by decide)
    rw [memitemSize, hnext]
    exact hloose₂.rings.memitemSize_eq hloose₂.ordered hnmem
  have htotal : add32 r.2 (memitemSize a (pushFree r.1 area.head n) n) =
      freeSum a r.1 (before ++ [x] ++ n :: after') := by
    have hbound := hloose₂.rings.freeSum_le hloose₂.ordered
    have hend := area.tail_fits
    rw [hsizen, ← hsum₂]
    exact add32_eq_of_lt (by lia)
  rw [htotal]
  have hinsert : n ∈ fs' ↔ true = false := by simp [hnfs₂]
  have hleft : ∀ l q, before ++ [x] = l ++ [q] → isUsed r.1 q = true := by
    intro l q hlast
    rw [← (append_inj_right' hlast rfl |> singleton_inj.mp), hflag₂ x (by simp)]
    exact husedx
  have hmax : (s.heaps area.heap).poolSize -
      freeSum a r.1 (before ++ [x] ++ n :: after') ≤ (s.heaps area.heap).maxUsedSize := by
    lia
  rcases hloose₂.finish (s := s)
    (h := setAvailable (s.heaps area.heap) (freeSum a r.1 (before ++ [x] ++ n :: after')))
    hinsert hleft hright₂ hinv.freeList_eq hinv.poolSize_eq rfl hmax
    with ⟨⟨fs'', hinv'⟩, hsame₃, -⟩
  refine ⟨_, fs'', hinv', ?_⟩
  rw [hbs]
  exact (hsame₁.trans hsame₂).trans hsame₃

theorem PoolInv.of_keeps (hinv : PoolInv area s bs fs)
    (hkeeps : KeepsFields s.memory m' (itemSet area.head area.tail bs) []) :
    PoolInv area { s with memory := m' } bs fs := by
  have hsame : ∀ i ∈ itemSet area.head area.tail bs, ∀ f, get m' f i = get s.memory f i :=
    fun i hi f => hkeeps i hi f (by simp)
  have hflag : ∀ i ∈ itemSet area.head area.tail bs, isUsed m' i = isUsed s.memory i :=
    fun i hi => hkeeps.isUsed_eq (by simp) hi
  constructor
  · exact hinv.ordered
  · exact hinv.rings.of_keeps (fun i hi f _ => hsame i hi f)
  · intro i
    rw [hinv.free_iff i]
    constructor
    · rintro ⟨hi, hfree⟩
      exact ⟨hi, (hflag i (item_mem hi)).trans hfree⟩
    · rintro ⟨hi, hfree⟩
      exact ⟨hi, (hflag i (item_mem hi)).symm.trans hfree⟩
  · exact (hflag _ tail_mem).trans hinv.tail_used
  · exact hinv.noFreePair.kept hflag fun i hi => by grind [mem_itemSet]
  · intro i hi
    exact (hsame i (item_mem hi) _).trans (hinv.poolPtr_eq i hi)
  · exact hinv.freeList_eq
  · exact hinv.poolSize_eq
  · rw [hinv.available_eq]
    symm
    exact freeSum_congr (fun i hi => hflag i (item_mem hi)) (fun i hi => hsame i (item_mem hi) _)
  · exact hinv.maxUsed_le

theorem PoolInv.keeps_of_copy {src count : ℕ} (hinv : PoolInv area s bs fs) (hy : y ∈ bs)
    (hroom : y + memheapSize a + count ≤ get s.memory .next y) :
    KeepsFields s.memory (s.memory.copy (y + memheapSize a) src count)
      (itemSet area.head area.tail bs) [] := by
  intro i hi f _
  have hoffset := offset_le f
  have hapart := hinv.rings.area_apart hinv.ordered area.headOutside hy i hi
  exact Memory.load_congr (Memory.copy_agreeOn _ (by lia))

def Holds (area : Area a) (s : State) (used : ℕ → Prop) : Prop :=
  ∃ bs fs, PoolInv area s bs fs ∧ ∀ i, (i ∈ bs ∧ isUsed s.memory i = true) ↔ used i

inductive Resized (area : Area a) (s : State) (used : ℕ → Prop) (x newsize : ℕ) :
    State × ℕ → Prop where
  | released {s' : State} (hzero : newsize = 0) (hholds : Holds area s' fun i => used i ∧ i ≠ x) :
      Resized area s used x newsize (s', rtNull)
  | failed (hpos : newsize ≠ 0) : Resized area s used x newsize (s, rtNull)
  | kept {s' : State} (hpos : newsize ≠ 0) (hholds : Holds area s' used) :
      Resized area s used x newsize (s', x + memheapSize a)
  | moved {s' : State} {y : ℕ} (hpos : newsize ≠ 0) (hfresh : ¬used y)
      (hholds : Holds area s' fun i => i = y ∨ (used i ∧ i ≠ x)) :
      Resized area s used x newsize (s', y + memheapSize a)

variable {used : ℕ → Prop} {newsize : ℕ}

theorem Holds.rtMemheapAlloc (hholds : Holds area s used) (size : ℕ) :
    ∃ result, rtMemheapAlloc a s area.heap size = some result ∧ (result = (s, rtNull) ∨
        ∃ y, result.2 = y + memheapSize a ∧ ¬used y ∧
          Holds area result.1 (fun i => i = y ∨ used i) ∧
          y + memheapSize a + itemSize a size ≤ get result.1.memory .next y) := by
  rcases hholds with ⟨bs, fs, hinv, hused⟩
  rcases hinv.rtMemheapAlloc size with ⟨result, hresult, hcases⟩
  refine ⟨result, hresult, ?_⟩
  rcases hcases with hnull | ⟨y, bs', fs', hp, htaken⟩
  · exact .inl hnull
  · refine .inr ⟨y, hp, ?_, ⟨bs', fs', htaken.inv, ?_⟩, htaken.room⟩
    · rw [← hused y]
      exact htaken.fresh
    · intro i
      rw [htaken.used_iff i, hused i]

theorem Holds.rtMemheapFree (hholds : Holds area s used) (hx : used x) :
    Holds area (rtMemheapFree a s (x + memheapSize a)) fun i => used i ∧ i ≠ x := by
  rcases hholds with ⟨bs, fs, hinv, hused⟩
  rcases (hused x).mpr hx with ⟨hxbs, hxused⟩
  rcases hinv.rtMemheapFree hxbs hxused with ⟨bs', fs', hinv', hused'⟩
  refine ⟨bs', fs', hinv', ?_⟩
  intro i
  rw [hused' i, hused i]

theorem add_memheapSize_ne_null (a : AlignSize) (x : ℕ) : x + memheapSize a ≠ rtNull := by
  have hsize := twentyFour_le_memheapSize a
  unfold rtNull
  omega

theorem itemSize_add_le (a : AlignSize) (size : ℕ) : itemSize a size + a.bytes ≤ 4294967296 := by
  have hbytes := a.bytes_le
  unfold itemSize miniAlloc
  split_ifs with hsmall
  · lia
  · have hlt : rtAlign a size < 4294967296 := rtAlign_lt a
    have hdvd : a.bytes ∣ rtAlign a size := dvd_rtAlign a
    have hword : a.bytes ∣ 4294967296 := by
      have hpow : (4294967296 : ℕ) = 2 ^ 32 := by norm_num
      rw [hpow]
      exact Nat.pow_dvd_pow 2 (a.bits_le.trans (by decide))
    have hrest := Nat.le_of_dvd (by lia) (Nat.dvd_sub hword hdvd)
    lia

theorem Holds.moveItem {size oldsize : ℕ} (hholds : Holds area s used) (hx : used x)
    (hpos : newsize ≠ 0) (hsize : size + a.bytes ≤ 4294967296) : ∃ result,
      moveItem a s area.heap (x + memheapSize a) oldsize size = some result ∧
        Resized area s used x newsize result := by
  unfold MemHeap.moveItem
  rcases hholds.rtMemheapAlloc size with ⟨⟨s₁, p⟩, hresult, hcases⟩
  rw [hresult]
  rcases hcases with hnull | ⟨y, hp, hfresh, hholds₁, hroom⟩
  · rw [Prod.mk.injEq] at hnull
    simp only [hnull.1, hnull.2, ne_eq, not_true_eq_false, if_false]
    exact ⟨_, rfl, .failed hpos⟩
  · simp only at hp hholds₁ hroom
    rw [hp]
    simp only [if_pos (add_memheapSize_ne_null a y)]
    refine ⟨_, rfl, ?_⟩
    rcases hholds₁ with ⟨bs, fs, hinv, hused⟩
    have hy := ((hused y).mpr (.inl rfl)).1
    have hcount : (if oldsize < size then oldsize else size) ≤ itemSize a size := by
      have halign := le_rtAlign a hsize
      have hitem := (itemSize_spec a size).1
      split_ifs <;> lia
    generalize (if oldsize < size then oldsize else size) = count at *
    have hkeeps : KeepsFields s₁.memory
        (s₁.memory.copy (y + memheapSize a) (x + memheapSize a) count)
        (itemSet area.head area.tail bs) [] :=
      hinv.keeps_of_copy hy (by lia)
    generalize s₁.memory.copy (y + memheapSize a) (x + memheapSize a) count = m' at *
    have hholds₂ : Holds area { s₁ with memory := m' } fun i => i = y ∨ used i := by
      refine ⟨bs, fs, hinv.of_keeps hkeeps, ?_⟩
      intro i
      rw [← hused i]
      exact hkeeps.sameUsed (by simp) i
    rcases hholds₂.rtMemheapFree (.inr hx) with ⟨bs', fs', hinv', hused'⟩
    refine .moved hpos hfresh ⟨bs', fs', hinv', ?_⟩
    intro i
    rw [hused' i]
    grind

/-- The free item behind `x` passes the test for growing in place because
`newsize + RT_MEMHEAP_MINIALLOC` wraps. -/
def WrappedGrowth (a : AlignSize) (m : Memory) (x size : ℕ) : Prop :=
  4294967296 ≤ size + miniAlloc ∧ isUsed m (get m .next x) = false ∧
    add32 size miniAlloc < add32 (memitemSize a m (get m .next x)) (memitemSize a m x)

instance (a : AlignSize) (m : Memory) (x size : ℕ) : Decidable (WrappedGrowth a m x size) :=
  inferInstanceAs (Decidable (_ ∧ _))

theorem not_wrappedGrowth (hsize : rtAlign a newsize + miniAlloc < 4294967296) :
    ¬WrappedGrowth a m x (itemSize a newsize) := by
  intro hwrapped
  have hle := hwrapped.1
  unfold itemSize miniAlloc at *
  split_ifs at hle <;> omega

theorem lt_of_not_wrappedGrowth {size : ℕ} (hgrowth : ¬WrappedGrowth a m x size)
    (hfree : isUsed m (get m .next x) = false) (hroom : add32 size miniAlloc <
      add32 (memitemSize a m (get m .next x)) (memitemSize a m x)) :
    size + miniAlloc < 4294967296 := by
  by_contra hle
  exact hgrowth ⟨by omega, hfree, hroom⟩

theorem Holds.rtMemheapRealloc (hholds : Holds area s used) (hx : used x)
    (hgrowth : ¬WrappedGrowth a s.memory x (itemSize a newsize)) : ∃ result,
      rtMemheapRealloc a s area.heap (x + memheapSize a) newsize = some result ∧
        Resized area s used x newsize result := by
  have hheader : x + memheapSize a - memheapSize a = x := by lia
  unfold MemHeap.rtMemheapRealloc
  simp only [if_neg (add_memheapSize_ne_null a x), hheader]
  by_cases hpos : newsize = 0
  · rw [if_pos hpos]
    exact ⟨_, rfl, .released hpos (hholds.rtMemheapFree hx)⟩
  · rw [if_neg hpos]
    have hmoved : ∃ result,
        MemHeap.moveItem a s area.heap (x + memheapSize a) (memitemSize a s.memory x)
            (itemSize a newsize) = some result ∧
          Resized area s used x newsize result :=
      hholds.moveItem hx hpos (itemSize_add_le a newsize)
    rcases hholds with ⟨bs, fs, hinv, hused⟩
    rcases (hused x).mpr hx with ⟨hxbs, hxused⟩
    have hkept : ∀ {s' : State},
        (∃ bs' fs', PoolInv area s' bs' fs' ∧ SameUsed s.memory bs s'.memory bs') →
          Resized area s used x newsize (s', x + memheapSize a) := by
      rintro s' ⟨bs', fs', hinv', hsame⟩
      exact .kept hpos ⟨bs', fs', hinv', fun i => (hsame i).trans (hused i)⟩
    generalize itemSize a newsize = size at *
    rcases hinv.item_bounds hxbs with ⟨hsizex, hgapx, hendx⟩
    have hheadSize := twentyFour_le_memheapSize a
    by_cases hgrow : size > memitemSize a s.memory x
    · rw [if_pos hgrow]
      by_cases hroom : (!isUsed s.memory (get s.memory .next x)) = true ∧
          add32 (memitemSize a s.memory (get s.memory .next x)) (memitemSize a s.memory x) >
            add32 size miniAlloc
      · rw [if_pos hroom]
        rcases hroom with ⟨hfree, hroom⟩
        have hfree' : isUsed s.memory (get s.memory .next x) = false := by simpa using hfree
        refine ⟨_, rfl, hkept (hinv.growItem hxbs hxused hfree' hgrow ?_)⟩
        rw [add32_eq_of_lt (lt_of_not_wrappedGrowth hgrowth hfree' hroom)] at hroom
        exact lt_of_lt_of_le hroom (add32_le _ _)
      · rw [if_neg hroom]
        exact hmoved
    · rw [if_neg hgrow]
      by_cases hsmall : add32 (add32 size (memheapSize a)) miniAlloc ≥ memitemSize a s.memory x
      · rw [if_pos hsmall]
        exact ⟨_, rfl, hkept ⟨bs, fs, hinv, fun _ => Iff.rfl⟩⟩
      · rw [if_neg hsmall]
        refine ⟨_, rfl, hkept (hinv.shrinkItem hxbs hxused ?_)⟩
        unfold miniAlloc at *
        rw [add32_eq_of_lt (x := size) (by lia), add32_eq_of_lt (by lia)] at hsmall
        lia

end RtThread.MemHeap
