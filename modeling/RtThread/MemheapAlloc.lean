import RtThread.MemheapInvariant

/-!
# Allocation from a memory heap

The search of `rt_memheap_alloc` ends and finds a free item that is large
enough when it reports one; taking that item, whole or split, keeps the
representation of the heap.
-/

namespace RtThread.MemHeap

open List Word

variable {a : AlignSize} {m m' m'' : Memory} {start tail head x y z n size : ℕ}
  {bs fs before after : List ℕ} {A : Set ℕ} {fields : List Field}

namespace KeepsFields

theorem trans (hfirst : KeepsFields m m' A fields) (hsecond : KeepsFields m' m'' A fields) :
    KeepsFields m m'' A fields := by
  intro j hj f hf
  rw [hsecond j hj f hf, hfirst j hj f hf]

theorem isUsed_eq (hkeeps : KeepsFields m m' A fields) (hmagic : Field.magic ∉ fields)
    (hx : x ∈ A) : isUsed m' x = isUsed m x := by
  unfold isUsed
  rw [hkeeps x hx _ hmagic]

end KeepsFields

theorem charge_spec (h : RtMemheap) (bytes : ℕ) (hbytes : bytes ≤ h.availableSize)
    (havailable : h.availableSize ≤ h.poolSize) (hpool : h.poolSize < 4294967296) :
    (charge h bytes).availableSize = h.availableSize - bytes ∧
      (charge h bytes).poolSize = h.poolSize ∧ (charge h bytes).freeList = h.freeList ∧
      (charge h bytes).poolSize - (charge h bytes).availableSize ≤
        (charge h bytes).maxUsedSize := by
  have hsub : sub32 h.availableSize bytes = h.availableSize - bytes :=
    sub32_eq_of_le hbytes (by omega)
  have hused : sub32 h.poolSize (h.availableSize - bytes) =
      h.poolSize - (h.availableSize - bytes) :=
    sub32_eq_of_le (by omega) hpool
  unfold charge
  simp only [hsub, hused]
  split_ifs with hmax
  · exact ⟨rfl, rfl, rfl, le_rfl⟩
  · exact ⟨rfl, rfl, rfl, by simp only at hmax ⊢; omega⟩

theorem Rings.nextFree_eq (hrings : Rings m A tail head bs fs)
    (hsplit : fs ++ [head] = before ++ x :: y :: after) : get m .nextFree x = y := by
  have hlinks := hrings.freeRing.links
  rw [cons_append, hsplit, ← cons_append] at hlinks
  exact (isChain_append_cons_cons.mp hlinks).2.1.1

/-- The search stops at the first free item which is large enough. -/
theorem searchFree_spec {suffix : List ℕ} {freeSize fuel : ℕ} (hrings : Rings m A tail head bs fs)
    (hsplit : fs ++ [head] = before ++ x :: suffix) (hsmall : freeSize < size)
    (hfuel : suffix.length + 2 ≤ fuel) :
    ∃ result, searchFree a m head size fuel x freeSize = some result ∧
      ((result.2 < size ∧ ∀ i ∈ fs, i ∈ x :: suffix → memitemSize a m i < size) ∨
        (size ≤ result.2 ∧ result.1 ∈ fs ∧ result.2 = memitemSize a m result.1)) := by
  have hhead : head ∉ fs := (nodup_cons.mp hrings.freeRing.nodup).1
  induction suffix generalizing before x freeSize fuel with
  | nil =>
    have hx : x = head := by
      have hlast := congrArg List.getLast? hsplit
      simpa using hlast.symm
    cases fuel with
    | zero => simp at hfuel
    | succ fuel =>
      refine ⟨(x, freeSize), ?_, .inl ⟨hsmall, ?_⟩⟩
      · rw [searchFree, if_neg (fun hgo => hgo.1 hx)]
      · intro i hi hmem
        rw [mem_singleton.mp hmem, hx] at hi
        contradiction
  | cons y suffix ih =>
    have hxmem : x ∈ fs ∧ x ≠ head := by
      have hnodup := hrings.freeRing.nodup
      have hperm : (fs ++ [head]).Nodup := by
        rw [nodup_append_comm]
        exact hnodup
      have hx : x ∈ fs ++ [head] := by
        rw [hsplit]
        simp
      have hhead : head ∈ y :: suffix := by
        have hlast := congrArg List.getLast? hsplit
        have hlast' : (y :: suffix).getLast? = some head := by
          simpa [getLast?_append, getLast?_cons_cons] using hlast.symm
        exact mem_of_getLast? hlast'
      have hne : x ≠ head := by
        intro heq
        rw [hsplit, nodup_append, nodup_cons] at hperm
        exact hperm.2.1.1 (heq ▸ hhead)
      refine ⟨?_, hne⟩
      rcases mem_append.mp hx with hx | hx
      · exact hx
      · exact absurd (mem_singleton.mp hx) hne
    rcases hxmem with ⟨hx, hne⟩
    cases fuel with
    | zero => simp at hfuel
    | succ fuel =>
      simp only [length_cons] at hfuel
      rw [searchFree, if_pos ⟨hne, hsmall⟩]
      by_cases hfit : memitemSize a m x < size
      · have hsplit' : fs ++ [head] = (before ++ [x]) ++ y :: suffix := by
          rw [hsplit]
          simp
        simp only [if_pos hfit, hrings.nextFree_eq hsplit]
        have hrest : suffix.length + 2 ≤ fuel := by omega
        rcases ih hsplit' hfit hrest with ⟨result, hresult, hcases⟩
        refine ⟨result, hresult, hcases.imp ?_ id⟩
        rintro ⟨hlast, hrest⟩
        refine ⟨hlast, ?_⟩
        intro i hi hmem
        rcases mem_cons.mp hmem with rfl | hmem
        · exact hfit
        · exact hrest i hi hmem
      · simp only [if_neg hfit]
        cases fuel with
        | zero => omega
        | succ fuel =>
          refine ⟨(x, memitemSize a m x), ?_, .inr ⟨by omega, hx, rfl⟩⟩
          rw [searchFree, if_neg (fun hgo => hfit hgo.2)]

variable {area : Area a} {s : State}

namespace PoolInv

section

variable (hinv : PoolInv area s bs fs)
include hinv

theorem free_mem (hx : x ∈ fs) : x ∈ bs :=
  ((hinv.free_iff x).mp hx).1

theorem available_le :
    freeSum a s.memory bs + 2 * memheapSize a ≤ area.poolSize ∧ area.poolSize < 4294967296 := by
  have hsum := hinv.rings.freeSum_le hinv.ordered
  have htail := area.tail_eq
  have hpool := area.poolSize_le
  have hlt := area.size_lt
  omega

theorem free_length : fs.length ≤ area.poolSize := by
  have hsize := twentyFour_le_memheapSize a
  have htail := area.tail_eq
  have hnodup := (nodup_cons.mp hinv.rings.freeRing.nodup).2
  have hle : fs.length ≤ area.tail - area.start := by
    apply length_le_of_nodup hnodup
    · intro i hi
      exact hinv.ordered.start_le (hinv.free_mem hi)
    · intro i hi
      have := hinv.ordered.le_tail (hinv.free_mem hi)
      omega
  omega

theorem search (hpos : 0 < size) : ∃ found, searchFree a s.memory (s.heaps area.heap).freeList size
        ((s.heaps area.heap).poolSize + 2)
        (get s.memory .nextFree (s.heaps area.heap).freeList) 0 = some found ∧
      ((found.2 < size ∧ ∀ i ∈ fs, memitemSize a s.memory i < size) ∨
        (size ≤ found.2 ∧ found.1 ∈ fs ∧ found.2 = memitemSize a s.memory found.1)) := by
  rw [hinv.freeList_eq, hinv.poolSize_eq]
  rcases exists_cons_of_append_head fs area.head with ⟨y, rest, hy, hdrop⟩
  have hnext : get s.memory .nextFree area.head = y := by
    have hlinks := hinv.rings.freeRing.links
    rw [cons_append, hy] at hlinks
    exact (isChain_cons_cons.mp hlinks).1.1
  have hlen : rest.length = fs.length := by
    have heq := congrArg List.length hy
    simp only [length_append, length_cons, length_nil] at heq
    omega
  have hfuel : rest.length + 2 ≤ area.poolSize + 2 := by
    have := hinv.free_length
    omega
  have hsplit : fs ++ [area.head] = [] ++ y :: rest := hy
  rcases searchFree_spec (a := a) hinv.rings hsplit hpos hfuel with ⟨found, hsearch, hfound⟩
  rw [hnext]
  refine ⟨found, hsearch, hfound.imp ?_ id⟩
  rintro ⟨hsmall, hall⟩
  refine ⟨hsmall, ?_⟩
  intro i hi
  apply hall i hi
  rw [← hy]
  exact mem_append_left _ hi

end

end PoolInv

theorem isUsed_of_magic_or (hmagic : get m' .magic x = get m .magic x ||| memheapUsed) :
    isUsed m' x = true := by
  unfold isUsed
  rw [hmagic, memheapUsed, Nat.and_or_distrib_right]
  simp

theorem isUsed_of_magic_and (hmagic : get m' .magic x = get m .magic x &&& 0xfffffffe) :
    isUsed m' x = false := by
  unfold isUsed
  rw [hmagic, memheapUsed, Nat.and_assoc]
  simp

theorem isUsed_of_memheapMagic (hmagic : get m .magic x = memheapMagic) : isUsed m x = false := by
  unfold isUsed
  rw [hmagic]
  rfl

theorem isUsed_congr (hmagic : get m' .magic x = get m .magic x) : isUsed m' x = isUsed m x := by
  unfold isUsed
  rw [hmagic]

theorem NoFreePair.mono {l : List ℕ} (hpair : NoFreePair m l)
    (hused : ∀ i ∈ l, isUsed m i = true → isUsed m' i = true) : NoFreePair m' l := by
  apply isChain_of_neighbours hpair
  intro x y hx hy hxy
  exact hxy.imp (hused x (dropLast_subset _ hx)) (hused y (mem_of_mem_tail hy))

theorem NoFreePair.kept {l : List ℕ} {A : Set ℕ} (hpair : NoFreePair m l)
    (hflag : ∀ i ∈ A, isUsed m' i = isUsed m i) (hsub : ∀ i ∈ l, i ∈ A) : NoFreePair m' l :=
  hpair.mono fun i hi hused => (hflag i (hsub i hi)).trans hused

theorem NoFreePair.insert_free {rest : List ℕ} (hpair : NoFreePair m (before ++ x :: z :: rest))
    (hmono : ∀ i ∈ before ++ x :: z :: rest, isUsed m i = true → isUsed m' i = true)
    (hx : isUsed m' x = true) (hz : isUsed m' z = true) :
    NoFreePair m' (before ++ x :: n :: z :: rest) := by
  have hall := isChain_append_cons_cons.mp (hpair.mono hmono)
  apply isChain_append_cons_cons.mpr
  refine ⟨hall.1, .inl hx, ?_⟩
  exact isChain_cons_cons.mpr ⟨.inr hz, hall.2.2⟩

theorem NoFreePair.used_of_free {rest : List ℕ} (hpair : NoFreePair m (before ++ x :: z :: rest))
    (hfree : isUsed m x = false) : isUsed m z = true := by
  have hxz := (isChain_append_cons_cons.mp hpair).2.1
  exact hxz.resolve_left (by simp [hfree])

theorem Rings.markUsed (hrings : Rings m A tail head bs fs) (hxA : x ∈ A) :
    let m' := set m .magic x (get m .magic x ||| memheapUsed)
    Rings m' A tail head bs fs ∧ KeepsFields m m' A [.magic] ∧
      isUsed m' x = true ∧ ∀ j ∈ A, j ≠ x → isUsed m' j = isUsed m j := by
  intro m'
  have hlt : get m .magic x ||| memheapUsed < 4294967296 :=
    Nat.or_lt_two_pow (n := 32) (get_lt m .magic x) (by decide)
  rcases hrings.set_magic hxA hlt with ⟨hrings', hkeeps, hmagic, hframe⟩
  exact ⟨hrings', hkeeps, isUsed_of_magic_or hmagic, fun j hj hne => isUsed_congr (hframe j hj hne)⟩

theorem Rings.detach (hrings : Rings m A tail head bs fs) (hx : x ∈ fs) :
    Rings (MemHeap.clearFree (MemHeap.unlinkFree m x) x) A tail head bs (fs.erase x) ∧
      KeepsFields m (MemHeap.clearFree (MemHeap.unlinkFree m x) x) A [.nextFree, .prevFree] := by
  have hnodup := nodup_cons.mp hrings.freeRing.nodup
  have hxA := hrings.free_mem x (mem_cons_of_mem _ hx)
  have hxout : x ∉ head :: fs.erase x := by
    simp only [mem_cons, not_or]
    exact ⟨fun heq => hnodup.1 (heq ▸ hx), hnodup.2.not_mem_erase⟩
  rcases hrings.unlinkFree hx with ⟨hunlinked, hkeeps⟩
  rcases hunlinked.clearFree hxA hxout with ⟨hcleared, hkeeps'⟩
  exact ⟨hcleared, hkeeps.trans hkeeps'⟩

def HeadOutside (a : AlignSize) (head start tail : ℕ) : Prop :=
  head + 24 ≤ start ∨ tail + memheapSize a ≤ head

theorem Area.headOutside (area : Area a) : HeadOutside a area.head area.start area.tail := by
  have hapart := area.head_apart
  have htail := area.tail_eq
  have hpool := area.poolSize_le
  unfold HeadOutside
  omega

theorem Rings.area_apart (hrings : Rings m A tail head bs fs)
    (hordered : Ordered a start tail bs) (houtside : HeadOutside a head start tail) (hx : x ∈ bs) :
    ∀ i ∈ itemSet head tail bs, i + 24 ≤ x + memheapSize a ∨ get m .next x ≤ i := by
  have hsize := twentyFour_le_memheapSize a
  obtain ⟨before, after, hbs⟩ := append_of_mem hx
  obtain ⟨rest, hrest, hbefore, -, hbehind, hle⟩ := hrings.around hordered hbs
  have hlow := hordered.start_le hx
  have hitem : ∀ i ∈ bs ++ [tail], i + 24 ≤ x + memheapSize a ∨ get m .next x ≤ i := by
    intro i hi
    rw [hbs, append_assoc, cons_append, hrest] at hi
    simp only [mem_append, mem_cons] at hi
    rcases hi with hi | hi | hi | hi
    · have := hbefore i hi
      lia
    · lia
    · lia
    · have := hbehind i hi
      lia
  intro i hi
  rw [mem_itemSet] at hi
  rcases hi with hi | hi | hi
  · unfold HeadOutside at houtside
    lia
  · exact hitem i (by simp [hi])
  · exact hitem i (by simp [hi])

theorem Rings.gap_apart (hrings : Rings m A tail head bs fs) (hordered : Ordered a start tail bs)
    (houtside : HeadOutside a head start tail) (hbs : bs = before ++ x :: after)
    (hxn : x + memheapSize a ≤ n) (hnz : n + memheapSize a ≤ get m .next x) :
    ∀ i ∈ itemSet head tail bs, i + 24 ≤ n ∨ n + 24 ≤ i := by
  have hsize := twentyFour_le_memheapSize a
  intro i hi
  have hapart := hrings.area_apart hordered houtside (by simp [hbs] : x ∈ bs) i hi
  lia

theorem Rings.insertGap {heap : ℕ} (hrings : Rings m (itemSet head tail bs) tail head bs fs)
    (hordered : Ordered a start tail bs) (houtside : HeadOutside a head start tail)
    (hheap : heap < 4294967296) (hbs : bs = before ++ x :: after) (hxn : x + memheapSize a ≤ n)
    (hnz : n + memheapSize a ≤ get m .next x) : let m' := MemHeap.insertItem m heap x n
    Rings m' (itemSet head tail (before ++ x :: n :: after)) tail head
        (before ++ x :: n :: after) fs ∧
      Ordered a start tail (before ++ x :: n :: after) ∧
      n ∉ itemSet head tail bs ∧
      isUsed m' n = false ∧ get m' .poolPtr n = heap ∧
      get m' .next n = get m .next x ∧ get m' .next x = n ∧
      ∀ j ∈ itemSet head tail bs, isUsed m' j = isUsed m j ∧ get m' .poolPtr j = get m .poolPtr j ∧
        (j ≠ x → get m' .next j = get m .next j) := by
  intro m'
  rcases hrings.around hordered hbs with ⟨rest, hrest, -, -, hbehind, hle⟩
  have hapart := hrings.gap_apart hordered houtside hbs hxn hnz
  have htailLt := hrings.sep.lt tail (by simp [itemSet])
  have hnot : n ∉ itemSet head tail bs := by
    intro hmem
    have := hapart n hmem
    lia
  have hnring : n ∉ tail :: bs := by
    intro hmem
    apply hnot
    rw [mem_itemSet]
    exact .inr (mem_cons.mp hmem)
  have hext := hrings.extend (n := n) (by lia) hapart
  rcases hext.insertItem hbs (Set.mem_insert n _) hnring hheap
    with ⟨hinserted, -, hmagic, hpool, hnextn, hnextx, hframe⟩
  have hset : itemSet head tail (before ++ x :: n :: after) = insert n (itemSet head tail bs) := by
    ext i
    rw [Set.mem_insert_iff, mem_itemSet, mem_itemSet, hbs]
    grind
  refine ⟨?_, ?_, hnot, isUsed_of_memheapMagic hmagic, hpool, hnextn, hnextx, ?_⟩
  · rw [hset]
    exact hinserted
  · rw [hbs] at hordered
    apply hordered.insert hxn
    intro z hz
    rw [hrest] at hz
    rcases mem_cons.mp hz with rfl | hz
    · exact hnz
    · have := hbehind z hz
      lia
  · intro j hj
    have hjn : j ≠ n := fun heq => hnot (heq ▸ hj)
    rcases hframe j (Set.mem_insert_of_mem _ hj) hjn with ⟨hmagicj, hpoolj, hnextj⟩
    exact ⟨isUsed_congr hmagicj, hpoolj, hnextj⟩

theorem State.update_heaps (s : State) (heap : ℕ) (m : Memory) (h : RtMemheap) :
    (s.update heap m h).heaps heap = h := by
  simp [State.update]

theorem freeSum_sides (a : AlignSize) (mid mid' : List ℕ)
    (hleft : ∀ i ∈ before, isUsed m' i = isUsed m i ∧ get m' .next i = get m .next i)
    (hright : ∀ i ∈ after, isUsed m' i = isUsed m i ∧ get m' .next i = get m .next i) :
    freeSum a m' (before ++ mid' ++ after) + freeSum a m mid =
      freeSum a m (before ++ mid ++ after) + freeSum a m' mid' := by
  have hbefore : freeSum a m' before = freeSum a m before :=
    freeSum_congr (fun i hi => (hleft i hi).1) (fun i hi => (hleft i hi).2)
  have hafter : freeSum a m' after = freeSum a m after :=
    freeSum_congr (fun i hi => (hright i hi).1) (fun i hi => (hright i hi).2)
  simp only [freeSum_append, hbefore, hafter]
  omega

theorem freeSum_replace (before mid mid' after : List ℕ)
    (hnodup : (before ++ (x :: mid ++ after)).Nodup)
    (hkept : ∀ i ∈ before ++ (x :: mid ++ after), i ≠ x → isUsed m' i = isUsed m i ∧
      get m' .next i = get m .next i) :
    freeSum a m' (before ++ (mid' ++ after)) + freeSum a m (x :: mid) =
      freeSum a m (before ++ (x :: mid ++ after)) + freeSum a m' mid' := by
  rw [nodup_append, cons_append, nodup_cons] at hnodup
  rw [← append_assoc, ← append_assoc]
  apply freeSum_sides
  · intro i hi
    exact hkept i (by simp [hi]) (hnodup.2.2 i hi x mem_cons_self)
  · intro i hi
    apply hkept i (by simp [hi])
    intro heq
    exact hnodup.2.1.1 (heq ▸ mem_append_right _ hi)

structure MarkedUsed (head tail : ℕ) (bs : List ℕ) (m m' : Memory) (x : ℕ) : Prop where
  used : isUsed m' x = true
  flag : ∀ j ∈ itemSet head tail bs, j ≠ x → isUsed m' j = isUsed m j
  poolPtr : ∀ j ∈ bs, get m' .poolPtr j = get m .poolPtr j
  next : ∀ j ∈ bs, j ≠ x → get m' .next j = get m .next j

namespace MarkedUsed

section

variable (hmarked : MarkedUsed head tail bs m m' x)
include hmarked

theorem flag_of_mem (hj : y ∈ bs) (hne : y ≠ x) : isUsed m' y = isUsed m y :=
  hmarked.flag y (item_mem hj) hne

theorem mono : ∀ i ∈ bs ++ [tail], isUsed m i = true → isUsed m' i = true := by
  intro i hi hused
  by_cases hix : i = x
  · rw [hix]
    exact hmarked.used
  · have hmem : i ∈ itemSet head tail bs := by
      rw [mem_itemSet]
      simp only [mem_append, mem_cons, not_mem_nil, or_false] at hi
      exact .inr hi.symm
    exact (hmarked.flag i hmem hix).trans hused

theorem kept : ∀ i ∈ bs, i ≠ x → isUsed m' i = isUsed m i ∧ get m' .next i = get m .next i :=
  fun i hi hne => ⟨hmarked.flag_of_mem hi hne, hmarked.next i hi hne⟩

end

end MarkedUsed

theorem Rings.takeWhole (hrings : Rings m (itemSet head tail bs) tail head bs fs) (hx : x ∈ fs)
    (hxbs : x ∈ bs) :
    Rings (MemHeap.takeWhole m x) (itemSet head tail bs) tail head bs (fs.erase x) ∧
      MarkedUsed head tail bs m (MemHeap.takeWhole m x) x ∧
      get (MemHeap.takeWhole m x) .next x = get m .next x := by
  rcases hrings.detach hx with ⟨hdetached, hkeeps⟩
  rcases hdetached.markUsed (item_mem hxbs) with ⟨hmarked, hkeeps', hused, hframe⟩
  unfold MemHeap.takeWhole
  refine ⟨hmarked, ⟨hused, ?_, ?_, ?_⟩, ?_⟩
  · intro j hj hne
    rw [hframe j hj hne]
    exact hkeeps.isUsed_eq (by decide) hj
  · intro j hj
    rw [hkeeps' j (item_mem hj) _ (by decide), hkeeps j (item_mem hj) _ (by decide)]
  · intro j hj _
    rw [hkeeps' j (item_mem hj) _ (by decide), hkeeps j (item_mem hj) _ (by decide)]
  · rw [hkeeps' x (item_mem hxbs) _ (by decide), hkeeps x (item_mem hxbs) _ (by decide)]

theorem Rings.takeFront {heap : ℕ} (hrings : Rings m (itemSet head tail bs) tail head bs fs)
    (hordered : Ordered a start tail bs) (houtside : HeadOutside a head start tail)
    (hheap : heap < 4294967296) (hbs : bs = before ++ x :: after) (hfs : ∀ i ∈ fs, i ∈ bs)
    (hx : x ∈ fs) (hxn : x + memheapSize a ≤ n) (hnz : n + memheapSize a ≤ get m .next x) :
    let m' := MemHeap.takeFront m heap head x n
    Rings m' (itemSet head tail (before ++ x :: n :: after)) tail head
        (before ++ x :: n :: after) (n :: fs.erase x) ∧
      Ordered a start tail (before ++ x :: n :: after) ∧
      MarkedUsed head tail bs m m' x ∧
      x ≠ n ∧ isUsed m' n = false ∧ get m' .poolPtr n = heap ∧
      get m' .next n = get m .next x ∧ get m' .next x = n := by
  intro m'
  rcases hrings.insertGap hordered houtside hheap hbs hxn hnz
    with ⟨hrings₁, hordered₁, hnot, hfreen, hpooln, hnextn, hnextx, hframe₁⟩
  have hm' : m' = MemHeap.takeFront m heap head x n := rfl
  unfold MemHeap.takeFront at hm'
  generalize MemHeap.insertItem m heap x n = m₁ at *
  have hold : ∀ j ∈ itemSet head tail bs, j ∈ itemSet head tail (before ++ x :: n :: after) := by
    intro j hj
    rw [mem_itemSet] at hj ⊢
    rw [hbs] at hj
    grind
  have hnA : n ∈ itemSet head tail (before ++ x :: n :: after) := by
    rw [mem_itemSet]
    simp
  have hnfree : n ∉ head :: fs.erase x := by
    intro hmem
    apply hnot
    rw [mem_itemSet]
    rcases mem_cons.mp hmem with hmem | hmem
    · exact .inl hmem
    · exact .inr (.inr (hfs n (mem_of_mem_erase hmem)))
  have hxA := hold x (item_mem (hfs x hx))
  have hxne : x ≠ n := fun heq => hnot (heq ▸ item_mem (hfs x hx))
  rcases hrings₁.detach hx with ⟨hrings₂, hkeeps₂⟩
  rcases hrings₂.pushFree hnA hnfree with ⟨hrings₃, hkeeps₃⟩
  rcases hrings₃.markUsed hxA with ⟨hrings₄, hkeeps₄, hused, hframe₄⟩
  rw [← hm'] at hrings₄ hkeeps₄ hused hframe₄
  have hkeeps := hkeeps₂.trans hkeeps₃
  have hword : ∀ j ∈ itemSet head tail (before ++ x :: n :: after), ∀ f,
      f ∉ [Field.magic, .nextFree, .prevFree] → get m' f j = get m₁ f j := by
    intro j hj f hf
    simp only [mem_cons, not_mem_nil, or_false, not_or] at hf
    rw [hkeeps₄ j hj f (by simp [hf.1]), hkeeps j hj f (by simp [hf.2.1, hf.2.2])]
  refine ⟨hrings₄, hordered₁, ⟨hused, ?_, ?_, ?_⟩, hxne, ?_, ?_, ?_, ?_⟩
  · intro j hj hne
    rw [hframe₄ j (hold j hj) hne, hkeeps.isUsed_eq (by decide) (hold j hj)]
    exact (hframe₁ j hj).1
  · intro j hj
    rw [hword j (hold j (item_mem hj)) _ (by decide)]
    exact (hframe₁ j (item_mem hj)).2.1
  · intro j hj hne
    rw [hword j (hold j (item_mem hj)) _ (by decide)]
    exact (hframe₁ j (item_mem hj)).2.2 hne
  · rw [hframe₄ n hnA hxne.symm, hkeeps.isUsed_eq (by decide) hnA]
    exact hfreen
  · rw [hword n hnA _ (by decide)]
    exact hpooln
  · rw [hword n hnA _ (by decide)]
    exact hnextn
  · rw [hword x hxA _ (by decide)]
    exact hnextx

namespace PoolInv

section

variable (hinv : PoolInv area s bs fs)
include hinv

theorem erase_iff (hmarked : MarkedUsed area.head area.tail bs s.memory m' x) (i : ℕ) :
    i ∈ fs.erase x ↔ i ∈ bs ∧ isUsed m' i = false := by
  rw [(nodup_cons.mp hinv.rings.freeRing.nodup).2.mem_erase_iff, hinv.free_iff]
  constructor
  · rintro ⟨hne, hi, hfree⟩
    exact ⟨hi, (hmarked.flag_of_mem hi hne).trans hfree⟩
  · rintro ⟨hi, hfree⟩
    have hne : i ≠ x := by
      rintro rfl
      nomatch hmarked.used.symm.trans hfree
    exact ⟨hne, hi, (hmarked.flag_of_mem hi hne).symm.trans hfree⟩

theorem charged {bytes : ℕ} {bs' fs' : List ℕ}
    (hmarked : MarkedUsed area.head area.tail bs s.memory m' x) (hx : x ∈ bs)
    (hordered : Ordered a area.start area.tail bs')
    (hrings : Rings m' (itemSet area.head area.tail bs') area.tail area.head bs' fs')
    (hfree : ∀ i, i ∈ fs' ↔ i ∈ bs' ∧ isUsed m' i = false)
    (hpair : NoFreePair m' (bs' ++ [area.tail]))
    (hpoolPtr : ∀ i ∈ bs', get m' .poolPtr i = area.heap)
    (hsum : freeSum a m' bs' + bytes = freeSum a s.memory bs) :
    PoolInv area (s.update area.heap m' (charge (s.heaps area.heap) bytes)) bs' fs' := by
  have hsize := twentyFour_le_memheapSize a
  have hxtail : area.tail ≠ x := by
    have := hinv.ordered.le_tail hx
    lia
  rcases hinv.available_le with ⟨havailable, hpool⟩
  have havailableEq := hinv.available_eq
  have hpoolEq := hinv.poolSize_eq
  rcases charge_spec (s.heaps area.heap) bytes (by lia) (by lia) (by lia)
    with ⟨hcharge, hchargePool, hchargeList, hchargeMax⟩
  constructor
  · exact hordered
  · exact hrings
  · exact hfree
  · exact (hmarked.flag _ tail_mem hxtail).trans hinv.tail_used
  · exact hpair
  · exact hpoolPtr
  · rw [State.update_heaps, hchargeList]
    exact hinv.freeList_eq
  · rw [State.update_heaps, hchargePool]
    exact hpoolEq
  · rw [State.update_heaps, hcharge, havailableEq]
    change _ = freeSum a m' bs'
    lia
  · rw [State.update_heaps]
    exact hchargeMax

theorem takeWhole (hx : x ∈ fs) : PoolInv area (s.update area.heap (MemHeap.takeWhole s.memory x)
          (charge (s.heaps area.heap) (memitemSize a s.memory x))) bs (fs.erase x) ∧
      isUsed (MemHeap.takeWhole s.memory x) x = true ∧
      get (MemHeap.takeWhole s.memory x) .next x = get s.memory .next x ∧ ∀ j ∈ bs, j ≠ x →
        isUsed (MemHeap.takeWhole s.memory x) j = isUsed s.memory j := by
  have hxbs := hinv.free_mem hx
  have hxfree := ((hinv.free_iff x).mp hx).2
  rcases hinv.rings.takeWhole hx hxbs with ⟨hrings, hmarked, hnext⟩
  generalize MemHeap.takeWhole s.memory x = m' at *
  refine ⟨?_, hmarked.used, hnext, fun j hj hne => hmarked.flag_of_mem hj hne⟩
  rcases append_of_mem hxbs with ⟨before, after, hbs⟩
  have hsum : freeSum a m' bs + memitemSize a s.memory x = freeSum a s.memory bs := by
    have hreplace := freeSum_replace (a := a) before [] [x] after (hbs ▸ hinv.ordered.nodup)
      (hbs ▸ hmarked.kept)
    rw [hinv.rings.memitemSize_eq hinv.ordered hxbs, hbs]
    simpa [freeSum_cons, freeBytes, hxfree, hmarked.used] using hreplace
  apply hinv.charged hmarked hxbs hinv.ordered hrings (hinv.erase_iff hmarked)
  · exact hinv.noFreePair.mono hmarked.mono
  · intro i hi
    rw [hmarked.poolPtr i hi]
    exact hinv.poolPtr_eq i hi
  · exact hsum

theorem takeFront (hbs : bs = before ++ x :: after) (hx : x ∈ fs)
    (hn : n = x + size + memheapSize a) (hfit : n + memheapSize a ≤ get s.memory .next x) :
    PoolInv area (s.update area.heap (MemHeap.takeFront s.memory area.heap area.head x n)
          (charge (s.heaps area.heap) (size + memheapSize a)))
        (before ++ x :: n :: after) (n :: fs.erase x) ∧
      isUsed (MemHeap.takeFront s.memory area.heap area.head x n) x = true ∧
      isUsed (MemHeap.takeFront s.memory area.heap area.head x n) n = false ∧
      get (MemHeap.takeFront s.memory area.heap area.head x n) .next x = n ∧ ∀ j ∈ bs, j ≠ x →
        isUsed (MemHeap.takeFront s.memory area.heap area.head x n) j = isUsed s.memory j := by
  have hxbs := hinv.free_mem hx
  have hxfree := ((hinv.free_iff x).mp hx).2
  rcases hinv.rings.takeFront hinv.ordered area.headOutside area.heap_lt hbs
      (fun i hi => hinv.free_mem hi) hx (by lia) hfit
    with ⟨hrings, hordered, hmarked, hxne, hfreen, hpooln, hnextn, hnextx⟩
  generalize MemHeap.takeFront s.memory area.heap area.head x n = m' at *
  refine ⟨?_, hmarked.used, hfreen, hnextx, fun j hj hne => hmarked.flag_of_mem hj hne⟩
  have hmem : ∀ i, i ∈ before ++ x :: n :: after ↔ i = n ∨ i ∈ bs := by
    intro i
    rw [hbs]
    grind
  have hsum : freeSum a m' (before ++ x :: n :: after) + (size + memheapSize a) =
      freeSum a s.memory bs := by
    have hreplace := freeSum_replace (a := a) before [] [x, n] after
      (hbs ▸ hinv.ordered.nodup) (hbs ▸ hmarked.kept)
    simp only [cons_append, nil_append, freeSum_cons, freeSum_nil, freeBytes,
      hmarked.used, hfreen, hxfree, hnextn, Bool.false_eq_true, if_false, if_true] at hreplace
    rw [hbs]
    lia
  apply hinv.charged hmarked hxbs hordered hrings
  · intro i
    rw [mem_cons, hinv.erase_iff hmarked, hmem]
    by_cases hin : i = n
    · simp [hin, hfreen]
    · simp [hin]
  · rcases exists_cons_of_append_head after area.tail with ⟨z, rest, hz, -⟩
    have hshape : bs ++ [area.tail] = before ++ x :: z :: rest := by
      rw [hbs, append_assoc, cons_append, hz]
    have hshape' : before ++ x :: n :: after ++ [area.tail] = before ++ x :: n :: z :: rest := by
      rw [append_assoc, cons_append, cons_append, hz]
    have hpair := hinv.noFreePair
    have hmono := hmarked.mono
    rw [hshape] at hpair hmono
    rw [hshape']
    apply hpair.insert_free hmono hmarked.used
    exact hmono z (by simp) (hpair.used_of_free hxfree)
  · intro i hi
    rcases (hmem i).mp hi with rfl | hibs
    · exact hpooln
    · rw [hmarked.poolPtr i hibs]
      exact hinv.poolPtr_eq i hibs
  · exact hsum

end

end PoolInv

structure ItemTaken (area : Area a) (s : State) (bs : List ℕ) (s' : State)
    (bs' fs' : List ℕ) (x size : ℕ) : Prop where
  inv : PoolInv area s' bs' fs'
  fresh : ¬(x ∈ bs ∧ isUsed s.memory x = true)
  used_iff : ∀ i, (i ∈ bs' ∧ isUsed s'.memory i = true) ↔
      i = x ∨ (i ∈ bs ∧ isUsed s.memory i = true)
  room : x + memheapSize a + size ≤ get s'.memory .next x

theorem PoolInv.takeItem (hinv : PoolInv area s bs fs) (hx : x ∈ fs)
    (hfit : size ≤ memitemSize a s.memory x) : ∃ bs' fs', ItemTaken area s bs
      (takeItem a s area.heap x (memitemSize a s.memory x) size) bs' fs' x size := by
  have hsize := twentyFour_le_memheapSize a
  have hxbs := hinv.free_mem hx
  have hxfree := ((hinv.free_iff x).mp hx).2
  rcases append_of_mem hxbs with ⟨before, after, hbs⟩
  rcases hinv.item_bounds hxbs with ⟨hitem, hgap, hend⟩
  have hsum : add32 size (memheapSize a) = size + memheapSize a := add32_eq_of_lt (by lia)
  have hneed : add32 (size + memheapSize a) miniAlloc = size + memheapSize a + 12 :=
    add32_eq_of_lt (by unfold miniAlloc; lia)
  have hfresh : ¬(x ∈ bs ∧ isUsed s.memory x = true) := by simp [hxfree]
  unfold MemHeap.takeItem
  simp only [hsum, hneed, hinv.freeList_eq]
  by_cases hsplit : memitemSize a s.memory x ≥ size + memheapSize a + 12
  · have hptr : add32 (add32 x size) (memheapSize a) = x + size + memheapSize a := by
      rw [add32_eq_of_lt (x := x) (by lia), add32_eq_of_lt (by lia)]
    rw [if_pos hsplit, hptr]
    rcases hinv.takeFront hbs hx
      (rfl : x + size + memheapSize a = x + size + memheapSize a) (by lia)
      with ⟨hinv', hused, hfreen, hnextx, hflag⟩
    refine ⟨_, _, hinv', hfresh, ?_, ?_⟩
    · intro i
      constructor
      · rintro ⟨hi, hiused⟩
        by_cases hix : i = x
        · exact .inl hix
        · have hin : i ≠ x + size + memheapSize a := by
            intro heq
            rw [heq] at hiused
            nomatch hfreen.symm.trans hiused
          have hibs : i ∈ bs := by
            rw [hbs]
            grind
          exact .inr ⟨hibs, (hflag i hibs hix).symm.trans hiused⟩
      · rintro (hix | ⟨hi, hiused⟩)
        · rw [hix]
          exact ⟨by simp, hused⟩
        · have hix : i ≠ x := by
            intro heq
            rw [heq] at hiused
            nomatch hxfree.symm.trans hiused
          refine ⟨?_, (hflag i hi hix).trans hiused⟩
          rw [hbs] at hi
          grind
    · change _ ≤ get (MemHeap.takeFront s.memory area.heap area.head x _) .next x
      rw [hnextx]
      lia
  · rw [if_neg hsplit]
    rcases hinv.takeWhole hx with ⟨hinv', hused, hnextx, hflag⟩
    refine ⟨_, _, hinv', hfresh, ?_, ?_⟩
    · intro i
      by_cases hix : i = x
      · rw [hix]
        exact ⟨fun _ => .inl rfl, fun _ => ⟨hxbs, hused⟩⟩
      · constructor
        · rintro ⟨hi, hiused⟩
          exact .inr ⟨hi, (hflag i hi hix).symm.trans hiused⟩
        · intro hi
          have hi' := hi.resolve_left hix
          exact ⟨hi'.1, (hflag i hi'.1 hix).trans hi'.2⟩
    · change _ ≤ get (MemHeap.takeWhole s.memory x) .next x
      rw [hnextx]
      lia

theorem itemSize_spec (a : AlignSize) (size : ℕ) :
    rtAlign a size ≤ itemSize a size ∧ 12 ≤ itemSize a size := by
  unfold itemSize miniAlloc
  split_ifs <;> omega

theorem PoolInv.rtMemheapAlloc (hinv : PoolInv area s bs fs) (size : ℕ) :
    ∃ result, rtMemheapAlloc a s area.heap size = some result ∧ (result = (s, rtNull) ∨
        ∃ x bs' fs', result.2 = x + memheapSize a ∧
          ItemTaken area s bs result.1 bs' fs' x (itemSize a size)) := by
  have hmin := (itemSize_spec a size).2
  unfold MemHeap.rtMemheapAlloc
  by_cases hroom : itemSize a size < (s.heaps area.heap).availableSize
  · rw [if_pos hroom]
    rcases hinv.search (by omega : 0 < itemSize a size) with ⟨found, hsearch, hfound⟩
    rw [hsearch]
    simp only
    rcases hfound with ⟨hsmall, -⟩ | ⟨hfit, hx, hitem⟩
    · rw [if_neg (by omega)]
      exact ⟨_, rfl, .inl rfl⟩
    · rw [if_pos hfit]
      rw [hitem] at hfit ⊢
      rcases hinv.takeItem hx hfit with ⟨bs', fs', htaken⟩
      exact ⟨_, rfl, .inr ⟨found.1, bs', fs', rfl, htaken⟩⟩
  · rw [if_neg hroom]
    exact ⟨_, rfl, .inl rfl⟩

/-- The free item which `rt_memheap_alloc` looks for: the bytes in all free items are more
than `size`, and one of the items is large enough. -/
def Serves (a : AlignSize) (s : State) (heap : ℕ) (fs : List ℕ) (size : ℕ) : Prop :=
  size < (s.heaps heap).availableSize ∧ ∃ i ∈ fs, size ≤ memitemSize a s.memory i

instance (a : AlignSize) (s : State) (heap : ℕ) (fs : List ℕ) (size : ℕ) :
    Decidable (Serves a s heap fs size) :=
  inferInstanceAs (Decidable (_ ∧ _))

/-- A pool refuses a request exactly when no free item serves it. -/
theorem PoolInv.rtMemheapAlloc_eq_null_iff {result : State × ℕ} (hinv : PoolInv area s bs fs)
    (hresult : MemHeap.rtMemheapAlloc a s area.heap size = some result) :
    result.2 = rtNull ↔ ¬Serves a s area.heap fs (itemSize a size) := by
  have hmin := (itemSize_spec a size).2
  have hsize := twentyFour_le_memheapSize a
  unfold MemHeap.rtMemheapAlloc at hresult
  unfold Serves
  by_cases hroom : itemSize a size < (s.heaps area.heap).availableSize
  · rw [if_pos hroom] at hresult
    rcases hinv.search (by omega : 0 < itemSize a size) with ⟨found, hsearch, hfound⟩
    rw [hsearch] at hresult
    simp only at hresult
    rcases hfound with ⟨hsmall, hall⟩ | ⟨hfit, hx, hitem⟩
    · rw [if_neg (by omega), Option.some.injEq] at hresult
      rw [← hresult]
      have hnone : ¬∃ i ∈ fs, itemSize a size ≤ memitemSize a s.memory i := by
        rintro ⟨i, hi, hle⟩
        have := hall i hi
        omega
      simp [hnone]
    · rw [if_pos hfit, Option.some.injEq] at hresult
      have hne : result.2 ≠ rtNull := by
        rw [← hresult]
        unfold rtNull
        omega
      have hfound : ∃ i ∈ fs, itemSize a size ≤ memitemSize a s.memory i :=
        ⟨found.1, hx, hitem ▸ hfit⟩
      simp [hne, hroom, hfound]
  · rw [if_neg hroom, Option.some.injEq] at hresult
    rw [← hresult]
    simp [hroom]

end RtThread.MemHeap
