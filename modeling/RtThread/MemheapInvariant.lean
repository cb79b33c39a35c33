import RtThread.MemheapLists

/-!
# The representation of a memory heap

`PoolInv` says what the two lists, the flags and the counters of a heap mean.
The lemmas of this module are about one state; the operations follow in the
next module.
-/

namespace RtThread.MemHeap

open List Word

theorem twentyFour_le_memheapSize (a : AlignSize) : 24 ≤ memheapSize a :=
  le_rtAlign a (by have := a.bytes_le; omega)

/-- The memory area given to `rt_memheap_init`: aligned, larger than two item
headers and a minimal allocation, and apart from the control block. -/
structure Area (a : AlignSize) where
  heap : ℕ
  head : ℕ
  start : ℕ
  size : ℕ
  start_dvd : a.bytes ∣ start
  size_gt : 2 * memheapSize a + miniAlloc < size
  size_lt : size < 4294967296
  fits : start + size ≤ 4294967296
  heap_lt : heap < 4294967296
  head_fits : head + 24 ≤ 4294967296
  head_apart : head + 24 ≤ start ∨ start + size ≤ head

namespace Area

variable {a : AlignSize} (area : Area a)

def poolSize : ℕ := rtAlignDown a area.size

def tail : ℕ := area.start + area.poolSize - memheapSize a

theorem poolSize_le : area.poolSize ≤ area.size := rtAlignDown_le a area.size_lt

theorem two_items_le : 2 * memheapSize a ≤ area.poolSize := by
  have hgt := area.size_gt
  apply le_rtAlignDown a area.size_lt
  · exact Dvd.dvd.mul_left (dvd_rtAlign a) 2
  · omega

theorem tail_eq : area.tail + memheapSize a = area.start + area.poolSize := by
  have hitems := area.two_items_le
  unfold tail
  omega

theorem tail_fits : area.tail + memheapSize a ≤ 4294967296 := by
  have htail := area.tail_eq
  have hpool := area.poolSize_le
  have hfits := area.fits
  omega

end Area

def Behind (a : AlignSize) (x y : ℕ) : Prop := x + memheapSize a ≤ y

def itemSet (head tail : ℕ) (bs : List ℕ) : Set ℕ := { i | i ∈ head :: tail :: bs }

theorem mem_itemSet {head tail i : ℕ} {bs : List ℕ} :
    i ∈ itemSet head tail bs ↔ i = head ∨ i = tail ∨ i ∈ bs := by
  simp [itemSet]

theorem item_mem {head tail i : ℕ} {bs : List ℕ} (hi : i ∈ bs) : i ∈ itemSet head tail bs :=
  mem_itemSet.mpr (.inr (.inr hi))

theorem tail_mem {head tail : ℕ} {bs : List ℕ} : tail ∈ itemSet head tail bs :=
  mem_itemSet.mpr (.inr (.inl rfl))

def freeBytes (a : AlignSize) (m : Memory) (i : ℕ) : ℕ :=
  if isUsed m i then 0 else get m .next i - i - memheapSize a

def freeSum (a : AlignSize) (m : Memory) (bs : List ℕ) : ℕ :=
  (bs.map (freeBytes a m)).sum

structure Ordered (a : AlignSize) (start tail : ℕ) (bs : List ℕ) : Prop where
  first : bs.head? = some start
  pairwise : (bs ++ [tail]).Pairwise (Behind a)

variable {a : AlignSize} {m m' : Memory} {start tail head x y z n : ℕ}
  {bs fs before after : List ℕ} {A : Set ℕ}

namespace Ordered

section

variable (hordered : Ordered a start tail bs)
include hordered

theorem nodup : bs.Nodup := by
  have hsize := twentyFour_le_memheapSize a
  apply (pairwise_append.mp hordered.pairwise).1.imp
  intro x y hxy heq
  unfold Behind at hxy
  omega

theorem le_tail (hx : x ∈ bs) : x + memheapSize a ≤ tail :=
  (pairwise_append.mp hordered.pairwise).2.2 x hx tail (by simp)

theorem start_le (hx : x ∈ bs) : start ≤ x := by
  have hfirst := hordered.first
  have hpair := hordered.pairwise
  cases bs with
  | nil => simp at hfirst
  | cons b bs =>
    simp only [head?_cons, Option.some.injEq] at hfirst
    rw [cons_append, pairwise_cons] at hpair
    rcases mem_cons.mp hx with rfl | hx
    · exact hfirst.ge
    · have hle := hpair.1 x (mem_append_left _ hx)
      unfold Behind at hle
      omega

theorem apart (hx : x ∈ bs ++ [tail]) (hy : y ∈ bs ++ [tail])
    (hne : x ≠ y) : x + memheapSize a ≤ y ∨ y + memheapSize a ≤ x := by
  rcases append_of_mem hx with ⟨before, after, hsplit⟩
  have hpair := hordered.pairwise
  rw [hsplit] at hpair hy
  rw [pairwise_append, pairwise_cons] at hpair
  simp only [mem_append, mem_cons] at hy
  rcases hy with hy | hy | hy
  · exact .inr (hpair.2.2 y hy x mem_cons_self)
  · exact absurd hy.symm hne
  · exact .inl (hpair.2.1.1 y hy)

end

theorem ne_next (hordered : Ordered a start tail (before ++ x :: y :: after)) : x ≠ y := by
  have hnodup := hordered.nodup
  rw [nodup_append, nodup_cons] at hnodup
  intro heq
  exact hnodup.2.1.1 (heq ▸ mem_cons_self)

theorem remove (hordered : Ordered a start tail (before ++ x :: y :: after)) :
    Ordered a start tail (before ++ x :: after) := by
  constructor
  · have hfirst := hordered.first
    cases before with
    | nil | cons b before => exact hfirst
  · apply List.Pairwise.sublist _ hordered.pairwise
    apply List.Sublist.append_right
    apply List.Sublist.append_left
    exact (sublist_cons_self y after).cons_cons x

theorem insert (hordered : Ordered a start tail (before ++ x :: after))
    (hxn : x + memheapSize a ≤ n) (hbehind : ∀ z ∈ after ++ [tail], n + memheapSize a ≤ z) :
    Ordered a start tail (before ++ x :: n :: after) := by
  constructor
  · have hfirst := hordered.first
    cases before with
    | nil | cons b before => exact hfirst
  · have hpair := hordered.pairwise
    rw [append_assoc, cons_append, pairwise_append, pairwise_cons] at hpair
    rcases hpair with ⟨hleft, ⟨hxright, hright⟩, hcross⟩
    rw [append_assoc, cons_append, cons_append, pairwise_append,
      pairwise_cons, pairwise_cons]
    refine ⟨hleft, ⟨?_, hbehind, hright⟩, ?_⟩
    · intro z hz
      rcases mem_cons.mp hz with rfl | hz
      · exact hxn
      · exact hxright z hz
    · intro b hb z hz
      have hbx : b + memheapSize a ≤ x := hcross b hb x mem_cons_self
      rcases mem_cons.mp hz with rfl | hz
      · exact hbx
      · rcases mem_cons.mp hz with rfl | hz
        · unfold Behind
          omega
        · exact hcross b hb z (mem_cons_of_mem _ hz)

end Ordered

section

variable (hrings : Rings m A tail head bs fs)
include hrings

theorem Rings.next_eq
    (hsplit : bs ++ [tail] = before ++ x :: y :: after) : get m .next x = y := by
  have hlinks := hrings.blockRing.links
  rw [cons_append, hsplit, ← cons_append] at hlinks
  exact (isChain_append_cons_cons.mp hlinks).2.1.1

theorem Rings.prev_eq
    (hsplit : bs ++ [tail] = before ++ x :: y :: after) : get m .prev y = x := by
  have hlinks := hrings.blockRing.links
  rw [cons_append, hsplit, ← cons_append] at hlinks
  exact (isChain_append_cons_cons.mp hlinks).2.1.2

theorem Rings.next_free (hbs : bs = before ++ x :: after) (htail : isUsed m tail = true)
    (hfree : isUsed m (get m .next x) = false) : ∃ rest, after = get m .next x :: rest := by
  subst hbs
  cases after with
  | nil =>
    rw [hrings.next_eq (append_assoc before [x] [tail]), htail] at hfree
    cases hfree
  | cons y rest =>
    have hnext := hrings.next_eq (append_assoc before (x :: y :: rest) [tail])
    exact ⟨rest, by rw [hnext]⟩

theorem Rings.around (hordered : Ordered a start tail bs)
    (hbs : bs = before ++ x :: after) : ∃ rest, after ++ [tail] = get m .next x :: rest ∧
      (∀ b ∈ before, b + memheapSize a ≤ x) ∧ x + memheapSize a ≤ get m .next x ∧
      (∀ b ∈ rest, get m .next x + memheapSize a ≤ b) ∧ get m .next x ≤ tail := by
  rcases exists_cons_of_append_head after tail with ⟨z, rest, hz, -⟩
  have hsplit : bs ++ [tail] = before ++ x :: z :: rest := by
    rw [hbs, append_assoc, cons_append, hz]
  have hpair := hordered.pairwise
  rw [hsplit, pairwise_append, pairwise_cons, pairwise_cons] at hpair
  rcases hpair with ⟨-, ⟨hxright, hzright, -⟩, hcross⟩
  rw [hrings.next_eq hsplit]
  have hlast : tail ∈ z :: rest := by
    rw [← hz]
    simp
  have hle : z ≤ tail := by
    rcases mem_cons.mp hlast with heq | hmem
    · exact heq.ge
    · have hbound := hzright _ hmem
      unfold Behind at hbound
      omega
  exact ⟨rest, hz, fun b hb => hcross b hb x mem_cons_self,
    hxright z mem_cons_self, hzright, hle⟩

theorem Rings.mono {B : Set ℕ} (hsub : B ⊆ A)
    (hblock : ∀ i ∈ tail :: bs, i ∈ B) (hfree : ∀ i ∈ head :: fs, i ∈ B) :
    Rings m B tail head bs fs := by
  constructor
  · constructor
    · intro i hi
      exact hrings.sep.lt i (hsub hi)
    · intro i hi j hj
      exact hrings.sep.apart i (hsub hi) j (hsub hj)
  · exact hblock
  · exact hfree
  · exact hrings.blockRing
  · exact hrings.freeRing

theorem Rings.extend (hlt : n < 4294967296)
    (hapart : ∀ i ∈ A, i + 24 ≤ n ∨ n + 24 ≤ i) : Rings m (insert n A) tail head bs fs := by
  constructor
  · constructor
    · intro i hi
      rcases Set.mem_insert_iff.mp hi with rfl | hi
      · exact hlt
      · exact hrings.sep.lt i hi
    · intro i hi j hj
      rcases Set.mem_insert_iff.mp hi with rfl | hiA
      · rcases Set.mem_insert_iff.mp hj with rfl | hjA
        · exact .inl rfl
        · exact .inr (hapart j hjA).symm
      · rcases Set.mem_insert_iff.mp hj with rfl | hjA
        · exact .inr (hapart i hiA)
        · exact hrings.sep.apart i hiA j hjA
  · intro i hi
    exact Set.mem_insert_of_mem _ (hrings.block_mem i hi)
  · intro i hi
    exact Set.mem_insert_of_mem _ (hrings.free_mem i hi)
  · exact hrings.blockRing
  · exact hrings.freeRing

end

def NoFreePair (m : Memory) (l : List ℕ) : Prop :=
  l.IsChain fun x y => isUsed m x = true ∨ isUsed m y = true

/-- The blocks in address order and the free ones among them, on both rings. -/
structure PoolInv (area : Area a) (s : State) (bs fs : List ℕ) : Prop where
  ordered : Ordered a area.start area.tail bs
  rings : Rings s.memory (itemSet area.head area.tail bs) area.tail area.head bs fs
  free_iff : ∀ i, i ∈ fs ↔ i ∈ bs ∧ isUsed s.memory i = false
  tail_used : isUsed s.memory area.tail = true
  noFreePair : NoFreePair s.memory (bs ++ [area.tail])
  poolPtr_eq : ∀ i ∈ bs, get s.memory .poolPtr i = area.heap
  freeList_eq : (s.heaps area.heap).freeList = area.head
  poolSize_eq : (s.heaps area.heap).poolSize = area.poolSize
  available_eq : (s.heaps area.heap).availableSize = freeSum a s.memory bs
  maxUsed_le : (s.heaps area.heap).poolSize - (s.heaps area.heap).availableSize ≤
      (s.heaps area.heap).maxUsedSize

theorem freeSum_append (a : AlignSize) (m : Memory) (l l' : List ℕ) :
    freeSum a m (l ++ l') = freeSum a m l + freeSum a m l' := by
  simp [freeSum]

@[simp] theorem freeSum_nil (a : AlignSize) (m : Memory) : freeSum a m [] = 0 := rfl

theorem freeSum_cons (a : AlignSize) (m : Memory) (i : ℕ) (l : List ℕ) :
    freeSum a m (i :: l) = freeBytes a m i + freeSum a m l := by
  simp [freeSum]

theorem freeSum_congr {l : List ℕ} (hused : ∀ i ∈ l, isUsed m' i = isUsed m i)
    (hnext : ∀ i ∈ l, get m' .next i = get m .next i) : freeSum a m' l = freeSum a m l := by
  unfold freeSum
  congr 1
  apply map_congr_left
  intro i hi
  unfold freeBytes
  rw [hused i hi, hnext i hi]

theorem freeSum_le_of_chain {l : List ℕ}
    (hchain : (x :: l ++ [tail]).IsChain fun x y =>
      get m .next x = y ∧ x + memheapSize a ≤ y) :
    x + memheapSize a + freeSum a m (x :: l) ≤ tail := by
  induction l generalizing x with
  | nil =>
    rcases (isChain_cons_cons.mp hchain).1 with ⟨hnext, hgap⟩
    rw [freeSum_cons, freeBytes, hnext]
    split_ifs <;> simp [freeSum] <;> lia
  | cons y l ih =>
    rcases isChain_cons_cons.mp hchain with ⟨⟨hnext, hgap⟩, htail⟩
    have hrest := ih htail
    rw [freeSum_cons, freeBytes, hnext]
    split_ifs <;> lia

section

variable (hrings : Rings m A tail head bs fs)
include hrings

theorem Rings.chain (hordered : Ordered a start tail bs) :
    (bs ++ [tail]).IsChain fun x y => get m .next x = y ∧ x + memheapSize a ≤ y := by
  have hlinks := hrings.blockRing.links
  rw [cons_append] at hlinks
  have hchain := hlinks.tail
  rw [tail_cons] at hchain
  apply (isChain_and hchain hordered.pairwise.isChain).imp
  intro x y hxy
  exact ⟨hxy.1.1, hxy.2⟩

theorem Rings.freeSum_le (hordered : Ordered a start tail bs) :
    start + memheapSize a + freeSum a m bs ≤ tail := by
  have hchain := hrings.chain hordered
  have hfirst := hordered.first
  cases bs with
  | nil => simp at hfirst
  | cons b bs =>
    simp only [head?_cons, Option.some.injEq] at hfirst
    exact hfirst ▸ freeSum_le_of_chain hchain

theorem Rings.memitemSize_eq
    (hordered : Ordered a start tail bs) (hx : x ∈ bs) :
    memitemSize a m x = get m .next x - x - memheapSize a := by
  rcases append_of_mem hx with ⟨before, after, hbs⟩
  rcases hrings.around hordered hbs with ⟨-, -, -, hgap, -, -⟩
  have hlt := get_lt m .next x
  unfold memitemSize
  rw [sub32_eq_of_le (x := get m .next x) (by omega) hlt, sub32_eq_of_le (by omega) (by omega)]

end

theorem PoolInv.item_bounds {area : Area a} {s : State} (hinv : PoolInv area s bs fs) (hx : x ∈ bs) :
    memitemSize a s.memory x = get s.memory .next x - x - memheapSize a ∧
      x + memheapSize a ≤ get s.memory .next x ∧
      get s.memory .next x + memheapSize a ≤ 4294967296 := by
  rcases append_of_mem hx with ⟨before, after, hbs⟩
  rcases hinv.rings.around hinv.ordered hbs with ⟨-, -, -, hgap, -, hle⟩
  have hend := area.tail_fits
  exact ⟨hinv.rings.memitemSize_eq hinv.ordered hx, hgap, by omega⟩

def initWord (heap item : ℕ) : Field → ℕ
  | .magic => memheapMagic
  | .poolPtr => heap
  | .next => rtNull
  | .prev => rtNull
  | .nextFree => item
  | .prevFree => item

theorem Separated.get_initItem {heap i j : ℕ} {f : Field} (hsep : Separated A)
    (hheap : heap < 4294967296) (hi : i ∈ A) (hj : j ∈ A) :
    get (initItem m heap i) f j = if i = j then initWord heap i f else get m f j := by
  have hilt := hsep.lt i hi
  have hnull : rtNull < 4294967296 := by decide
  have hmagic : memheapMagic < 4294967296 := by decide
  unfold initItem
  simp only [hsep.get_set hi hj hilt, hsep.get_set hi hj hnull, hsep.get_set hi hj hheap,
    hsep.get_set hi hj hmagic]
  by_cases hij : i = j
  · cases f <;> simp [hij, initWord]
  · simp [hij]

theorem Area.separated (area : Area a) : Separated (itemSet area.head area.tail [area.start]) := by
  have hsize := twentyFour_le_memheapSize a
  have hitems := area.two_items_le
  have htail := area.tail_eq
  have hpool := area.poolSize_le
  have hfits := area.fits
  have hheadFits := area.head_fits
  have hapart := area.head_apart
  have hmem : ∀ i ∈ itemSet area.head area.tail [area.start],
      i = area.head ∨ i = area.tail ∨ i = area.start := by
    intro i hi
    simpa [itemSet] using hi
  constructor
  · intro i hi
    rcases hmem i hi with rfl | rfl | rfl <;> lia
  · intro i hi j hj
    rcases hmem i hi with rfl | rfl | rfl <;> rcases hmem j hj with rfl | rfl | rfl <;> lia

theorem Area.available_eq (area : Area a) :
    sub32 (rtAlignDown a area.size) (mul32 2 (memheapSize a)) =
      area.poolSize - 2 * memheapSize a := by
  have hitems := area.two_items_le
  have hpool := area.poolSize_le
  have harea := area.size_lt
  have hdouble : mul32 2 (memheapSize a) = 2 * memheapSize a := mul32_eq_of_lt (by omega)
  rw [hdouble]
  change sub32 area.poolSize _ = _
  rw [sub32_eq_of_le hitems (by omega)]

def Area.firstItem (area : Area a) (m : Memory) : Memory :=
  let m := initItem (initItem m area.heap area.head) area.heap area.start
  set (set m .next area.start area.tail) .prev area.start area.tail

theorem Area.distinct (area : Area a) :
    area.start ≠ area.head ∧ area.tail ≠ area.head ∧ area.tail ≠ area.start := by
  have hsize := twentyFour_le_memheapSize a
  have hitems := area.two_items_le
  have htailEq := area.tail_eq
  have hpool := area.poolSize_le
  have hapart := area.head_apart
  lia

theorem Area.get_firstItem (area : Area a) (m : Memory) {f : Field} {j : ℕ}
    (hj : j ∈ itemSet area.head area.tail [area.start]) : get (area.firstItem m) f j =
      if Field.prev = f ∧ area.start = j then area.tail
      else if Field.next = f ∧ area.start = j then area.tail
      else if area.start = j then initWord area.heap area.start f
      else if area.head = j then initWord area.heap area.head f
      else get m f j := by
  have hsep := area.separated
  have hheadMem : area.head ∈ itemSet area.head area.tail [area.start] := by simp [itemSet]
  have hstartMem : area.start ∈ itemSet area.head area.tail [area.start] := by simp [itemSet]
  have htailMem : area.tail ∈ itemSet area.head area.tail [area.start] := by simp [itemSet]
  have htailLt := hsep.lt _ htailMem
  unfold firstItem
  rw [hsep.get_set hstartMem hj htailLt, hsep.get_set hstartMem hj htailLt,
    hsep.get_initItem area.heap_lt hstartMem hj, hsep.get_initItem area.heap_lt hheadMem hj]

theorem Area.nextFree_firstItem (area : Area a) (m : Memory) :
    get (area.firstItem m) .nextFree area.head = area.head := by
  have hheadMem : area.head ∈ itemSet area.head area.tail [area.start] := by simp [itemSet]
  rw [area.get_firstItem m hheadMem]
  simp [area.distinct.1, initWord]

theorem Area.get_pushFree_firstItem (area : Area a) (m : Memory) {f : Field} {j : ℕ}
    (hj : j ∈ itemSet area.head area.tail [area.start]) :
    get (pushFree (area.firstItem m) area.head area.start) f j =
      if Field.nextFree = f ∧ area.head = j then area.start
      else if Field.prevFree = f ∧ area.head = j then area.start
      else if Field.prevFree = f ∧ area.start = j then area.head
      else if Field.nextFree = f ∧ area.start = j then area.head
      else get (area.firstItem m) f j := by
  have hheadMem : area.head ∈ itemSet area.head area.tail [area.start] := by simp [itemSet]
  have hstartMem : area.start ∈ itemSet area.head area.tail [area.start] := by simp [itemSet]
  have hempty := area.nextFree_firstItem m
  rw [area.separated.get_pushFree hheadMem hstartMem (by rw [hempty]; exact hheadMem)
    area.distinct.1 hj, hempty]

theorem rtMemheapInit_memory (area : Area a) (s : State) :
    (rtMemheapInit a s area.heap area.head area.start area.size).memory =
      set (set (set (set (set (set (pushFree (area.firstItem s.memory) area.head area.start)
        .magic area.tail (memheapMagic ||| memheapUsed)) .poolPtr area.tail area.heap)
        .next area.tail area.start) .prev area.tail area.start)
        .prevFree area.tail rtNull) .nextFree area.tail rtNull := by
  have hsep := area.separated
  have hitems := area.two_items_le
  have htailEq := area.tail_eq
  have hstartMem : area.start ∈ itemSet area.head area.tail [area.start] := by simp [itemSet]
  have htailMem : area.tail ∈ itemSet area.head area.tail [area.start] := by simp [itemSet]
  have htailLt := hsep.lt _ htailMem
  have htail : add32 (add32 area.start (area.poolSize - 2 * memheapSize a))
      (memheapSize a) = area.tail := by
    rw [add32_eq_of_lt (x := area.start) (by lia), add32_eq_of_lt (by lia)]
    lia
  have hnext : ∀ m : Memory, get (set m .next area.start area.tail) .next area.start =
      area.tail := by
    intro m
    rw [hsep.get_set hstartMem hstartMem htailLt]
    simp
  have hnext' : get (pushFree (area.firstItem s.memory) area.head area.start) .next
      area.start = area.tail := by
    rw [area.get_pushFree_firstItem s.memory hstartMem, area.get_firstItem s.memory hstartMem]
    simp
  unfold rtMemheapInit
  simp only [area.available_eq, htail, hnext]
  unfold Area.firstItem at hnext' ⊢
  rw [hnext']

theorem rtMemheapInit_get (area : Area a) (s : State) {f : Field} {j : ℕ}
    (hj : j ∈ itemSet area.head area.tail [area.start]) :
    get (rtMemheapInit a s area.heap area.head area.start area.size).memory f j =
      if area.tail = j then
        match f with
        | .magic => memheapMagic ||| memheapUsed
        | .poolPtr => area.heap
        | .next => area.start
        | .prev => area.start
        | .nextFree => rtNull
        | .prevFree => rtNull
      else if area.start = j then
        match f with
        | .magic => memheapMagic
        | .poolPtr => area.heap
        | .next => area.tail
        | .prev => area.tail
        | .nextFree => area.head
        | .prevFree => area.head
      else
        match f with
        | .magic => memheapMagic
        | .poolPtr => area.heap
        | .next => rtNull
        | .prev => rtNull
        | .nextFree => area.start
        | .prevFree => area.start := by
  have hsep := area.separated
  have hstartMem : area.start ∈ itemSet area.head area.tail [area.start] := by simp [itemSet]
  have htailMem : area.tail ∈ itemSet area.head area.tail [area.start] := by simp [itemSet]
  have hstartLt := hsep.lt _ hstartMem
  have hnull : rtNull < 4294967296 := by decide
  have husedLt : memheapMagic ||| memheapUsed < 4294967296 := by decide
  rcases area.distinct with ⟨hheadStart, hheadTail, hstartTail⟩
  rw [rtMemheapInit_memory, hsep.get_set htailMem hj hnull, hsep.get_set htailMem hj hnull,
    hsep.get_set htailMem hj hstartLt, hsep.get_set htailMem hj hstartLt,
    hsep.get_set htailMem hj area.heap_lt, hsep.get_set htailMem hj husedLt,
    area.get_pushFree_firstItem s.memory hj, area.get_firstItem s.memory hj]
  have hcases : j = area.head ∨ j = area.tail ∨ j = area.start := by
    simpa [itemSet] using hj
  rcases hcases with rfl | rfl | rfl
  · cases f <;> simp [hheadTail, hheadStart, initWord]
  · cases f <;> simp
  · cases f <;> simp [hstartTail, hheadStart.symm, initWord]

theorem rtMemheapInit_inv (area : Area a) (s : State) :
    PoolInv area (rtMemheapInit a s area.heap area.head area.start area.size)
      [area.start] [area.start] := by
  have hget := fun j (hj : j ∈ itemSet area.head area.tail [area.start]) f =>
    rtMemheapInit_get area s hj (f := f)
  have hsep := area.separated
  have hsize := twentyFour_le_memheapSize a
  have hitems := area.two_items_le
  have htailEq := area.tail_eq
  have hpool := area.poolSize_le
  have hsizeLt := area.size_lt
  have hapart := area.head_apart
  have hheadMem : area.head ∈ itemSet area.head area.tail [area.start] := by simp [itemSet]
  have hstartMem : area.start ∈ itemSet area.head area.tail [area.start] := by simp [itemSet]
  have htailMem : area.tail ∈ itemSet area.head area.tail [area.start] := by simp [itemSet]
  have hheadStart : area.start ≠ area.head := by lia
  have hheadTail : area.tail ≠ area.head := by lia
  have hstartTail : area.tail ≠ area.start := by lia
  have hstartFree : isUsed (rtMemheapInit a s area.heap area.head area.start
      area.size).memory area.start = false := by
    rw [isUsed, hget _ hstartMem]
    simp [hstartTail, memheapMagic, memheapUsed]
  have htailUsed : isUsed (rtMemheapInit a s area.heap area.head area.start
      area.size).memory area.tail = true := by
    rw [isUsed, hget _ htailMem]
    simp [memheapMagic, memheapUsed]
  have hnextStart : get (rtMemheapInit a s area.heap area.head area.start
      area.size).memory .next area.start = area.tail := by
    rw [hget _ hstartMem]
    simp [hstartTail]
  constructor
  · constructor
    · rfl
    · have hbehind : Behind a area.start area.tail := by
        unfold Behind
        lia
      simpa using hbehind
  · constructor
    · exact hsep
    · intro i hi
      simp only [mem_cons, not_mem_nil, or_false] at hi
      rcases hi with rfl | rfl
      · exact htailMem
      · exact hstartMem
    · intro i hi
      simp only [mem_cons, not_mem_nil, or_false] at hi
      rcases hi with rfl | rfl
      · exact hheadMem
      · exact hstartMem
    · constructor
      · simp [Link, hget _ hstartMem, hget _ htailMem, hstartTail]
      · simp [hstartTail]
    · constructor
      · simp [Link, hget _ hstartMem, hget _ hheadMem, hstartTail, hheadTail, hheadStart]
      · simp [hheadStart.symm]
  · intro i
    constructor
    · intro hi
      rw [mem_singleton.mp hi]
      exact ⟨by simp, hstartFree⟩
    · intro hi
      exact hi.1
  · exact htailUsed
  · simp [NoFreePair, htailUsed]
  · intro i hi
    rw [mem_singleton.mp hi, hget _ hstartMem]
    simp [hstartTail]
  · simp [rtMemheapInit]
  · simp [rtMemheapInit, Area.poolSize]
  · have havailable : ((rtMemheapInit a s area.heap area.head area.start
        area.size).heaps area.heap).availableSize = area.poolSize - 2 * memheapSize a := by
      simp [rtMemheapInit, area.available_eq]
    rw [havailable, freeSum_cons, freeBytes, hstartFree, hnextStart]
    simp [freeSum]
    lia
  · have hmax : sub32 (rtAlignDown a area.size) (area.poolSize - 2 * memheapSize a) =
        area.poolSize - (area.poolSize - 2 * memheapSize a) :=
      sub32_eq_of_le (by unfold Area.poolSize; lia) (by unfold Area.poolSize at hpool; lia)
    simp only [rtMemheapInit, Function.update_self, area.available_eq, hmax]
    exact le_rfl

end RtThread.MemHeap
