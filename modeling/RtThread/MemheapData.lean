import RtThread.MemheapResize

/-!
# The data of a memory heap

The lists of a heap are edited in the headers of its items.  The data area of an
item in use, from the end of its header to the next item, is therefore neither
written nor moved by the calls on other items.
-/

namespace RtThread.MemHeap

open List Option Word MemHeap MemHeap.Field Set

/-- `m'` comes from `m` by writes to words of the items in `A`, and to `next` words only of the
items in `N`. -/
inductive Edits (A N : Set ℕ) (m : Memory) : Memory → Prop
  | refl : Edits A N m m
  | step {m' : Memory} {f : Field} {i v : ℕ} (hedits : Edits A N m m') (hi : i ∈ A)
      (hnext : f = .next → i ∈ N) : Edits A N m (set m' f i v)

variable {A B N M : Set ℕ} {a : AlignSize} {m m' m'' : Memory} {tail head start x y n : ℕ}
  {bs fs before after : List ℕ}

namespace Edits

theorem trans (hfirst : Edits A N m m') (hsecond : Edits A N m' m'') : Edits A N m m'' := by
  induction hsecond with
  | refl => exact hfirst
  | step _ hi hnext ih => exact ih.step hi hnext

theorem mono (hedits : Edits A N m m') (hA : A ⊆ B) (hN : N ⊆ M) : Edits B M m m' := by
  induction hedits with
  | refl => exact .refl
  | step _ hi hnext ih => exact ih.step (hA hi) fun hf => hN (hnext hf)

theorem byte (hedits : Edits A N m m') {b : ℕ} (hb : ∀ i ∈ A, b < i ∨ i + 24 ≤ b) : m' b = m b := by
  induction hedits with
  | refl => rfl
  | @step m' f i v _ hi _ ih =>
    have hoffset := offset_le f
    have hout := hb i hi
    have hagree : Memory.AgreeOn m' (set m' f i v) b 1 := Memory.store_agreeOn m' (by omega)
    rw [← ih]
    exact hagree b (le_refl b) (Nat.lt_succ_self b)

theorem next (hedits : Edits A N m m') (hsep : Separated A) {j : ℕ} (hj : j ∈ A) (hjN : j ∉ N) :
    get m' .next j = get m .next j := by
  induction hedits with
  | refl => rfl
  | @step m' f i v _ hi hnext ih =>
    have hoffset := offset_le f
    have hoffset' := offset_le .next
    have hapart : j + Field.next.offset + 4 ≤ i + f.offset ∨
        i + f.offset + 4 ≤ j + Field.next.offset := by
      obtain hij | hij := hsep.apart i hi j hj
      · have hne : f ≠ .next := by
          intro hf
          exact hjN (hij ▸ hnext hf)
        have := offset_apart hne
        lia
      · lia
    rw [← ih]
    exact Memory.load_store_of_apart m' hapart

/-! ## The edits of the lists -/

theorem unlinkFree (hrings : Rings m A tail head bs fs) (hx : x ∈ fs) :
    Edits A ∅ m (MemHeap.unlinkFree m x) := by
  have hxA := hrings.free_mem x (mem_cons_of_mem _ hx)
  have hqA := hrings.nextFree_mem (mem_cons_of_mem _ hx)
  have hpA := hrings.prevFree_mem (mem_cons_of_mem _ hx)
  have hback : get (set m .prevFree (get m .nextFree x) (get m .prevFree x)) .prevFree x =
      get m .prevFree x := by
    rw [hrings.sep.get_set hqA hxA (get_lt m .prevFree x)]
    exact ite_self _
  have hfirst : Edits A ∅ m (set m .prevFree (get m .nextFree x) (get m .prevFree x)) :=
    refl.step hqA noConfusion
  rw [← hback] at hpA
  exact hfirst.step hpA noConfusion

theorem pushFree (hrings : Rings m A tail head bs fs) (hxA : x ∈ A) (hx : x ≠ head) :
    Edits A ∅ m (MemHeap.pushFree m head x) := by
  have hheadA := hrings.free_mem head mem_cons_self
  have hqA := hrings.nextFree_mem mem_cons_self
  have hxlt := hrings.sep.lt head hheadA
  have hread : get (set (set m .nextFree x (get m .nextFree head)) .prevFree x head)
      .nextFree head = get m .nextFree head := by
    rw [hrings.sep.get_set hxA hheadA hxlt, hrings.sep.get_set hxA hheadA (get_lt m .nextFree head),
      if_neg (by simp), if_neg (by simp [hx])]
  have hfirst : Edits A ∅ m (set m .nextFree x (get m .nextFree head)) :=
    refl.step hxA noConfusion
  have hsecond : Edits A ∅ m (set (set m .nextFree x (get m .nextFree head)) .prevFree x head) :=
    hfirst.step hxA noConfusion
  rw [← hread] at hqA
  exact (hsecond.step hqA noConfusion).step hheadA noConfusion

theorem clearFree (hxA : x ∈ A) : Edits A ∅ m (MemHeap.clearFree m x) :=
  (refl.step hxA noConfusion).step hxA noConfusion

section

variable (hrings : Rings m A tail head bs fs)
include hrings

theorem unlinkBlock (hy : y ∈ tail :: bs) :
    Edits A {get m .prev y} m (MemHeap.unlinkBlock m y) := by
  have hyA := hrings.block_mem y hy
  have hqA := hrings.next_mem hy
  have hpA := hrings.prev_mem hy
  have hback : get (set m .prev (get m .next y) (get m .prev y)) .prev y = get m .prev y := by
    rw [hrings.sep.get_set hqA hyA (get_lt m .prev y)]
    exact ite_self _
  have hfirst : Edits A {get m .prev y} m (set m .prev (get m .next y) (get m .prev y)) :=
    refl.step hqA noConfusion
  unfold MemHeap.unlinkBlock
  dsimp only
  rw [hback]
  exact hfirst.step hpA fun _ => rfl

theorem mergeNext (hx : x ∈ tail :: bs)
    (hy : y ∈ tail :: bs) : Edits A {x} m (MemHeap.mergeNext m x y) := by
  have hfirst : Edits A {x} m (set m .prev (get m .next y) x) :=
    refl.step (hrings.next_mem hy) noConfusion
  exact hfirst.step (hrings.block_mem x hx) fun _ => rfl

theorem mergePrev (hy : y ∈ tail :: bs) :
    Edits A {get m .prev y} m (MemHeap.mergePrev m y) := by
  have hyA := hrings.block_mem y hy
  have hqA := hrings.next_mem hy
  have hpA := hrings.prev_mem hy
  have hforth : get (set m .next (get m .prev y) (get m .next y)) .next y = get m .next y := by
    rw [hrings.sep.get_set hpA hyA (get_lt m .next y)]
    exact ite_self _
  have hfirst : Edits A {get m .prev y} m (set m .next (get m .prev y) (get m .next y)) :=
    refl.step hpA fun _ => rfl
  unfold MemHeap.mergePrev
  dsimp only
  rw [hforth]
  exact hfirst.step hqA noConfusion

end

theorem absorbNext (hrings : Rings m A tail head (before ++ x :: y :: after) fs)
    (hordered : Ordered a start tail (before ++ x :: y :: after)) (hy : y ∈ fs) :
    Edits A {x} m (MemHeap.absorbNext m x y) := by
  have hxmem : x ∈ tail :: (before ++ x :: y :: after) := by simp
  have hymem : y ∈ tail :: (before ++ x :: y :: after) := by simp
  have hsplit : before ++ x :: y :: after ++ [tail] = before ++ x :: y :: (after ++ [tail]) := by
    simp
  have hremoves := hrings.mergeNext_removes hxmem (hrings.next_eq hsplit)
  have hmerged := (hrings.dropped hordered hremoves).1
  exact (mergeNext hrings hxmem hymem).trans
    ((unlinkFree hmerged hy).mono subset_rfl (empty_subset _))

theorem insertItem (heap : ℕ) (hrings : Rings m A tail head bs fs) (hx : x ∈ tail :: bs)
    (hnA : n ∈ A) (hne : x ≠ n) : Edits A {x, n} m (MemHeap.insertItem m heap x n) := by
  have hxA := hrings.block_mem x hx
  have hqA := hrings.next_mem hx
  have hprev : Edits A {n} m (set (set (set m .magic n memheapMagic) .poolPtr n heap) .prev n x) :=
    ((refl.step hnA noConfusion).step hnA noConfusion).step hnA noConfusion
  unfold MemHeap.insertItem
  dsimp only
  generalize set (set (set m .magic n memheapMagic) .poolPtr n heap) .prev n x = m₁ at *
  have hnext : Edits A {n} m (set m₁ .next n (get m₁ .next x)) := hprev.step hnA fun _ => rfl
  have hread := hnext.next hrings.sep hxA hne
  generalize set m₁ .next n (get m₁ .next x) = m₂ at *
  have hback : Edits A {n} m (set m₂ .prev (get m₂ .next x) n) :=
    hnext.step (hread ▸ hqA) noConfusion
  have hall := hback.mono (M := {x, n}) subset_rfl (subset_insert x {n})
  exact hall.step hxA fun _ => mem_insert x {n}

end Edits

/-! ## The data of the items -/

/-- Block `j` keeps its size and its bytes. -/
structure Kept (a : AlignSize) (m m' : Memory) (j : ℕ) : Prop where
  next : get m' .next j = get m .next j
  data : ∀ b, j + memheapSize a ≤ b → b < get m .next j → m' b = m b

theorem Kept.refl (a : AlignSize) (m : Memory) (j : ℕ) : Kept a m m j :=
  ⟨rfl, fun _ _ _ => rfl⟩

theorem Kept.trans {j : ℕ} (hfirst : Kept a m m' j) (hsecond : Kept a m' m'' j) :
    Kept a m m'' j where
  next := hsecond.next.trans hfirst.next
  data := by
    intro b hlow hhigh
    rw [← hfirst.data b hlow hhigh]
    exact hsecond.data b hlow (hfirst.next.symm ▸ hhigh)

theorem Edits.kept {j : ℕ} (hedits : Edits A N m m') (hsep : Separated A) (hj : j ∈ A)
    (hjN : j ∉ N) (harea : ∀ i ∈ A, i + 24 ≤ j + memheapSize a ∨ get m .next j ≤ i) :
    Kept a m m' j where
  next := hedits.next hsep hj hjN
  data := by
    intro b hlow hhigh
    apply hedits.byte
    intro i hi
    have := harea i hi
    omega

/-! ## The bytes of a heap -/

def Area.Covers (area : Area a) (b : ℕ) : Prop :=
  (area.head ≤ b ∧ b < area.head + 24) ∨ (area.start ≤ b ∧ b < area.start + area.poolSize)

structure Framed (area : Area a) (J : Set ℕ) (m m' : Memory) : Prop where
  outside : ∀ b, ¬area.Covers b → m' b = m b
  kept : ∀ j ∈ J, Kept a m m' j

namespace Framed

variable {area : Area a} {J K : Set ℕ}

theorem refl (area : Area a) (J : Set ℕ) (m : Memory) : Framed area J m m where
  outside _ _ := rfl
  kept _ _ := Kept.refl a m _

theorem trans (hfirst : Framed area J m m') (hsecond : Framed area J m' m'') :
    Framed area J m m'' where
  outside b hb := (hsecond.outside b hb).trans (hfirst.outside b hb)
  kept j hj := (hfirst.kept j hj).trans (hsecond.kept j hj)

theorem mono (hframed : Framed area J m m') (hsub : K ⊆ J) : Framed area K m m' where
  outside := hframed.outside
  kept j hj := hframed.kept j (hsub hj)

end Framed

theorem Ordered.covered {area : Area a} (hordered : Ordered a area.start area.tail bs) {i : ℕ}
    (hi : i ∈ itemSet area.head area.tail bs) :
    i = area.head ∨ (area.start ≤ i ∧ i + memheapSize a ≤ area.start + area.poolSize) := by
  have hitems := area.two_items_le
  have htail := area.tail_eq
  rcases mem_itemSet.mp hi with hi | hi | hi
  · exact .inl hi
  · lia
  · have hlow := hordered.start_le hi
    have hhigh := hordered.le_tail hi
    lia

theorem Edits.outside {area : Area a} (hedits : Edits A N m m') (hcovered : ∀ i ∈ A,
      i = area.head ∨ (area.start ≤ i ∧ i + memheapSize a ≤ area.start + area.poolSize))
    (b : ℕ) (hb : ¬area.Covers b) : m' b = m b := by
  have hsize := twentyFour_le_memheapSize a
  apply hedits.byte
  intro i hi
  have hplace := hcovered i hi
  unfold Area.Covers at hb
  omega

theorem Edits.framed {area : Area a} (hedits : Edits (itemSet area.head area.tail bs) N m m')
    (hrings : Rings m (itemSet area.head area.tail bs) area.tail area.head bs fs)
    (hordered : Ordered a area.start area.tail bs) : Framed area { j | j ∈ bs ∧ j ∉ N } m m' where
  outside := hedits.outside fun _ hi => hordered.covered hi
  kept _ hj := hedits.kept hrings.sep (item_mem hj.1) hj.2
    (hrings.area_apart hordered area.headOutside hj.1)

theorem Rings.area_apart_insert {j : ℕ} (hrings : Rings m A tail head bs fs)
    (hordered : Ordered a start tail bs) (houtside : HeadOutside a head start tail)
    (hj : j ∈ bs) (hx : x ∈ bs) (hne : j ≠ x) (hxn : x + memheapSize a ≤ n)
    (hnz : n + memheapSize a ≤ get m .next x) :
    ∀ i ∈ insert n (itemSet head tail bs), i + 24 ≤ j + memheapSize a ∨ get m .next j ≤ i := by
  have hsize := twentyFour_le_memheapSize a
  have hareaj := hrings.area_apart hordered houtside hj
  intro i hi
  obtain rfl | hi := mem_insert_iff.mp hi
  · have hxj := hareaj x (item_mem hx)
    have hjx := hrings.area_apart hordered houtside hx j (item_mem hj)
    have hapart := hordered.apart (mem_append_left _ hj) (mem_append_left _ hx) hne
    omega
  · exact hareaj i hi

variable {area : Area a} {s : State} {size : ℕ}

theorem Edits.framed_insert (hedits : Edits (insert n (itemSet area.head area.tail bs)) N m m')
    (hrings : Rings m (itemSet area.head area.tail bs) area.tail area.head bs fs)
    (hordered : Ordered a area.start area.tail bs) (hbs : bs = before ++ x :: after)
    (hxn : x + memheapSize a ≤ n) (hnz : n + memheapSize a ≤ get m .next x) :
    Framed area { j | j ∈ bs ∧ j ≠ x ∧ j ∉ N } m m' := by
  have hx : x ∈ bs := by simp [hbs]
  have hlt : n < 4294967296 := by
    have hnext := get_lt m .next x
    omega
  have hext := hrings.extend hlt (hrings.gap_apart hordered area.headOutside hbs hxn hnz)
  rcases hrings.around hordered hbs with ⟨-, -, -, -, -, hle⟩
  constructor
  · apply hedits.outside
    intro i hi
    rcases mem_insert_iff.mp hi with hi | hi
    · have hlow := hordered.start_le hx
      have htail := area.tail_eq
      omega
    · exact hordered.covered hi
  · intro j hj
    have hjA : j ∈ insert n (itemSet area.head area.tail bs) :=
      mem_insert_of_mem n (item_mem hj.1)
    exact hedits.kept hext.sep hjA hj.2.2
      (hrings.area_apart_insert hordered area.headOutside hj.1 hx hj.2.1 hxn hnz)

theorem PoolInv.takeItem_framed (hinv : PoolInv area s bs fs) (hx : x ∈ fs)
    (hfit : size ≤ memitemSize a s.memory x) :
    Framed area { j | j ∈ bs ∧ j ≠ x } s.memory
      (MemHeap.takeItem a s area.heap x (memitemSize a s.memory x) size).memory := by
  have hsize := twentyFour_le_memheapSize a
  have hxbs := hinv.free_mem hx
  rcases append_of_mem hxbs with ⟨before, after, hbs⟩
  rcases hinv.item_bounds hxbs with ⟨hitem, hgap, hend⟩
  have hsum : add32 size (memheapSize a) = size + memheapSize a := add32_eq_of_lt (by lia)
  have hneed : add32 (size + memheapSize a) miniAlloc = size + memheapSize a + 12 :=
    add32_eq_of_lt (by unfold miniAlloc; lia)
  unfold MemHeap.takeItem
  simp only [hsum, hneed, hinv.freeList_eq]
  by_cases hsplit : memitemSize a s.memory x ≥ size + memheapSize a + 12
  · have hptr : add32 (add32 x size) (memheapSize a) = x + size + memheapSize a := by
      rw [add32_eq_of_lt (x := x) (by lia), add32_eq_of_lt (by lia)]
    rw [if_pos hsplit, hptr]
    have hxn : x + memheapSize a ≤ x + size + memheapSize a := by lia
    have hnz : x + size + memheapSize a + memheapSize a ≤ get s.memory .next x := by lia
    have hrings := hinv.rings
    have hapart := hrings.gap_apart hinv.ordered area.headOutside hbs hxn hnz
    generalize x + size + memheapSize a = n at *
    have hlt : n < 4294967296 := by lia
    have hext := hrings.extend hlt hapart
    have hnB : n ∈ insert n (itemSet area.head area.tail bs) := mem_insert _ _
    have hxA : x ∈ itemSet area.head area.tail bs := item_mem hxbs
    have hxB := mem_insert_of_mem n hxA
    have hxne : x ≠ n := by lia
    have hnring : n ∉ area.tail :: bs := by
      intro hmem
      have hnA : n ∈ itemSet area.head area.tail bs :=
        mem_itemSet.mpr (.inr (mem_cons.mp hmem))
      have := hapart n hnA
      lia
    have hnfree : n ∉ area.head :: fs.erase x := by
      intro hmem
      have hnA : n ∈ itemSet area.head area.tail bs := by
        rcases mem_cons.mp hmem with hmem | hmem
        · exact mem_itemSet.mpr (.inl hmem)
        · exact item_mem (hinv.free_mem (mem_of_mem_erase hmem))
      have := hapart n hnA
      lia
    have hxmem : x ∈ area.tail :: bs := mem_cons_of_mem _ hxbs
    have hedit₁ := Edits.insertItem area.heap hext hxmem hnB hxne
    have hrings₁ := (hext.insertItem hbs hnB hnring area.heap_lt).1
    unfold MemHeap.takeFront
    dsimp only [State.update]
    generalize insertItem s.memory area.heap x n = m₁ at *
    have hedit₂ := (Edits.unlinkFree hrings₁ hx).trans (Edits.clearFree hxB)
    have hrings₂ := (hrings₁.detach hx).1
    generalize clearFree (unlinkFree m₁ x) x = m₂ at *
    have hedit₃ := Edits.pushFree hrings₂ hnB (fun heq => hnfree (heq ▸ mem_cons_self))
    have hedits := hedit₁.trans
      ((hedit₂.trans hedit₃).mono (M := {x, n}) subset_rfl (empty_subset _))
    apply ((hedits.step hxB noConfusion).framed_insert hrings hinv.ordered hbs hxn hnz).mono
    intro j hj
    have hjn := hapart j (item_mem hj.1)
    have hjN : j ∉ ({x, n} : Set ℕ) := by
      rw [mem_insert_iff, mem_singleton_iff]
      have := hj.2
      lia
    exact ⟨hj.1, hj.2, hjN⟩
  · rw [if_neg hsplit]
    have hxA : x ∈ itemSet area.head area.tail bs := item_mem hxbs
    have hedits := (Edits.unlinkFree hinv.rings hx).trans (Edits.clearFree hxA)
    apply ((hedits.step hxA noConfusion).framed hinv.rings hinv.ordered).mono
    intro j hj
    exact ⟨hj.1, notMem_empty j⟩

theorem PoolInv.rtMemheapAlloc_framed {result : State × ℕ} (hinv : PoolInv area s bs fs)
    (hresult : MemHeap.rtMemheapAlloc a s area.heap size = some result) :
    Framed area { j | j ∈ bs ∧ isUsed s.memory j = true } s.memory result.1.memory := by
  have hmin := (itemSize_spec a size).2
  unfold MemHeap.rtMemheapAlloc at hresult
  by_cases hroom : itemSize a size < (s.heaps area.heap).availableSize
  · rw [if_pos hroom] at hresult
    rcases hinv.search (by omega : 0 < itemSize a size) with ⟨found, hsearch, hfound⟩
    rw [hsearch] at hresult
    dsimp only at hresult
    rcases hfound with ⟨hsmall, -⟩ | ⟨hfit, hx, hitem⟩
    · rw [if_neg (by omega)] at hresult
      rw [← some.inj hresult]
      exact Framed.refl area _ s.memory
    · rw [if_pos hfit] at hresult
      rw [hitem] at hfit hresult
      rw [← some.inj hresult]
      apply (hinv.takeItem_framed hx hfit).mono
      intro j hj
      have hfree := ((hinv.free_iff found.1).mp hx).2
      refine ⟨hj.1, ?_⟩
      intro heq
      rw [← heq, hj.2] at hfree
      cases hfree
  · rw [if_neg hroom] at hresult
    rw [← some.inj hresult]
    exact Framed.refl area _ s.memory

/-! ## Giving an item back -/

section

variable (hloose : Loose area m before x after fs)
include hloose

theorem Loose.mergeLeft_framed (available : ℕ) :
    Framed area { j | j ∈ before ++ x :: after ∧ isUsed m j = true } m
      (MemHeap.mergeLeft a m x available).1 := by
  unfold MemHeap.mergeLeft
  split
  · exact Framed.refl area _ m
  · next hfree =>
      have hxmem : x ∈ area.tail :: (before ++ x :: after) := by simp
      apply ((Edits.mergePrev hloose.rings hxmem).framed hloose.rings hloose.ordered).mono
      intro j hj
      refine ⟨hj.1, ?_⟩
      intro heq
      rw [mem_singleton_iff] at heq
      exact hfree (heq ▸ hj.2)

theorem Loose.mergeRight_framed (available : ℕ) :
    Framed area { j | j ∈ before ++ x :: after ∧ isUsed m j = true } m
      (MemHeap.mergeRight a m x available).1 := by
  unfold MemHeap.mergeRight
  split
  · exact Framed.refl area _ m
  · next hfree =>
      rw [Bool.not_eq_true] at hfree
      rcases hloose.rings.next_free rfl hloose.tail_used hfree with ⟨rest, hafter⟩
      generalize get m .next x = y at *
      subst hafter
      have hyx := hloose.ordered.ne_next.symm
      have hyfs : y ∈ fs := (hloose.free_iff y hyx).mpr ⟨by simp, hfree⟩
      apply ((Edits.absorbNext hloose.rings hloose.ordered hyfs).framed hloose.rings
        hloose.ordered).mono
      intro j hj
      refine ⟨hj.1, ?_⟩
      intro heq
      have hused := hj.2
      rw [mem_singleton_iff.mp heq, hloose.free] at hused
      cases hused

theorem Loose.pushFree_framed :
    Framed area { j | j ∈ before ++ x :: after } m (MemHeap.pushFree m area.head x) := by
  have hsize := twentyFour_le_memheapSize a
  have hx : x ∈ before ++ x :: after := by simp
  have houtside := area.headOutside
  unfold HeadOutside at houtside
  have hlow := hloose.ordered.start_le hx
  have hhigh := hloose.ordered.le_tail hx
  have hne : x ≠ area.head := by omega
  apply ((Edits.pushFree hloose.rings (item_mem hx) hne).framed hloose.rings
    hloose.ordered).mono
  intro j hj
  exact ⟨hj, notMem_empty j⟩

end

theorem PoolInv.rtMemheapFree_framed (hinv : PoolInv area s bs fs) (hx : x ∈ bs)
    (hused : isUsed s.memory x = true) :
    Framed area { j | (j ∈ bs ∧ isUsed s.memory j = true) ∧ j ≠ x } s.memory
      (MemHeap.rtMemheapFree a s (x + memheapSize a)).memory := by
  have hsize := twentyFour_le_memheapSize a
  have hheader : x + memheapSize a - memheapSize a = x := by lia
  have hnull : ¬x + memheapSize a = rtNull := add_memheapSize_ne_null a x
  rcases append_of_mem hx with ⟨before, after, hbs⟩
  rcases hinv.markFree hbs hused with ⟨hloose, hxfs, hsum, husedIff⟩
  have hxA : x ∈ itemSet area.head area.tail bs := item_mem hx
  have hmark : Framed area { j | (j ∈ bs ∧ isUsed s.memory j = true) ∧ j ≠ x } s.memory
      (set s.memory .magic x (get s.memory .magic x &&& 0xfffffffe)) := by
    apply ((Edits.refl.step (N := ∅) hxA noConfusion).framed hinv.rings hinv.ordered).mono
    intro j hj
    exact ⟨hj.1.1, notMem_empty j⟩
  unfold MemHeap.rtMemheapFree
  simp only [if_neg hnull, hheader, hinv.poolPtr_eq x hx, hinv.freeList_eq]
  generalize set s.memory .magic x (get s.memory .magic x &&& 0xfffffffe) = m at *
  rw [hinv.add_available hloose hsum]
  have hleft := hloose.mergeLeft_framed (freeSum a m (before ++ x :: after))
  rcases hloose.mergeLeft hxfs with ⟨before', hloose₁, hsum₁, -, -, -, hsame₁⟩
  generalize mergeLeft a m x (freeSum a m (before ++ x :: after)) = left at *
  rw [hsum₁]
  have hright := hloose₁.mergeRight_framed (freeSum a left.1 (before' ++ left.2.1 :: after))
  rcases hloose₁.mergeRight with ⟨after', fs', hloose₂, -, -, -, -, -, hsame₂⟩
  generalize mergeRight a left.1 left.2.1
    (freeSum a left.1 (before' ++ left.2.1 :: after)) = right at *
  have hkept := (hmark.trans (hleft.mono fun j hj => (husedIff j).mpr hj)).trans
    (hright.mono fun j hj => (hsame₁ j).mpr ((husedIff j).mpr hj))
  split
  · apply hkept.trans (hloose₂.pushFree_framed.mono _)
    intro j hj
    exact ((hsame₂ j).mpr ((hsame₁ j).mpr ((husedIff j).mpr hj))).1
  · exact hkept

/-! ## Resizing in place -/

theorem ListsInv.insertItem_framed (hlists : ListsInv area m (before ++ x :: after) fs)
    (hxn : x + memheapSize a ≤ n) (hnz : n + memheapSize a ≤ get m .next x) :
    Framed area { j | j ∈ before ++ x :: after ∧ j ≠ x } m (MemHeap.insertItem m area.heap x n) ∧
      ∀ b, x + memheapSize a ≤ b → b < n → MemHeap.insertItem m area.heap x n b = m b := by
  have hsize := twentyFour_le_memheapSize a
  have hx : x ∈ before ++ x :: after := by simp
  have hxmem : x ∈ area.tail :: (before ++ x :: after) := by simp
  have hapart := hlists.rings.gap_apart hlists.ordered area.headOutside rfl hxn hnz
  have hnx := get_lt m .next x
  have hlt : n < 4294967296 := by lia
  have hext := hlists.rings.extend hlt hapart
  have hnB : n ∈ insert n (itemSet area.head area.tail (before ++ x :: after)) := mem_insert _ _
  have hxne : x ≠ n := by lia
  have hedits := Edits.insertItem area.heap hext hxmem hnB hxne
  constructor
  · apply (hedits.framed_insert hlists.rings hlists.ordered rfl hxn hnz).mono
    intro j hj
    have hjn := hapart j (item_mem hj.1)
    have hjN : j ∉ ({x, n} : Set ℕ) := by
      rw [mem_insert_iff, mem_singleton_iff]
      have := hj.2
      lia
    exact ⟨hj.1, hj.2, hjN⟩
  · intro b hlow hhigh
    apply hedits.byte
    intro i hi
    rcases mem_insert_iff.mp hi with rfl | hi
    · exact .inl hhigh
    · have := hlists.rings.area_apart hlists.ordered area.headOutside hx i hi
      lia

theorem ListsInv.dropFree_framed (hlists : ListsInv area m (before ++ x :: y :: after) fs)
    (hy : isUsed m y = false) :
    Framed area { j | j ∈ before ++ x :: y :: after ∧ j ≠ x } m
        (MemHeap.unlinkBlock (MemHeap.unlinkFree m y) y) ∧ ∀ b, x + memheapSize a ≤ b → b < y →
        MemHeap.unlinkBlock (MemHeap.unlinkFree m y) y b = m b := by
  have hx : x ∈ before ++ x :: y :: after := by simp
  have hymem : y ∈ area.tail :: (before ++ x :: y :: after) := by simp
  have hyfs : y ∈ fs := (hlists.free_iff y).mpr ⟨by simp, hy⟩
  have hsplit : before ++ x :: y :: after ++ [area.tail] =
      before ++ x :: y :: (after ++ [area.tail]) := by simp
  have hnext := hlists.rings.next_eq hsplit
  have hunlinked := (hlists.rings.unlinkFree hyfs).1
  have hprev := hunlinked.prev_eq hsplit
  have hfirst := (Edits.unlinkFree hlists.rings hyfs).mono (M := {x}) subset_rfl
    (empty_subset _)
  have hsecond := Edits.unlinkBlock hunlinked hymem
  rw [hprev] at hsecond
  have hedits := hfirst.trans hsecond
  constructor
  · exact hedits.framed hlists.rings hlists.ordered
  · intro b hlow hhigh
    apply hedits.byte
    intro i hi
    have harea := hlists.rings.area_apart hlists.ordered area.headOutside hx i hi
    omega

structure Carried (a : AlignSize) (m m' : Memory) (x y newsize : ℕ) : Prop where
  room : y + memheapSize a + newsize ≤ get m' .next y
  data : ∀ k < newsize, x + memheapSize a + k < get m .next x →
    m' (y + memheapSize a + k) = m (x + memheapSize a + k)

theorem mem_split_behind {before after : List ℕ} {j n : ℕ} (hj : j ∈ before ++ x :: after) :
    j ∈ before ++ [x] ++ n :: after := by
  rw [append_assoc]
  rcases mem_append.mp hj with hbefore | hbehind
  · exact mem_append_left _ hbefore
  · rcases mem_cons.mp hbehind with hself | hafter
    · exact mem_append_right _ (mem_cons.mpr (.inl hself))
    · exact mem_append_right _ (mem_cons_of_mem _ (mem_cons_of_mem _ hafter))

theorem PoolInv.growItem_data {newsize : ℕ} (hinv : PoolInv area s bs fs) (hx : x ∈ bs)
    (hused : isUsed s.memory x = true) (hfree : isUsed s.memory (get s.memory .next x) = false)
    (hroom : newsize + miniAlloc <
      memitemSize a s.memory (get s.memory .next x) + memitemSize a s.memory x) :
    Framed area { j | (j ∈ bs ∧ isUsed s.memory j = true) ∧ j ≠ x } s.memory
        (MemHeap.growItem a s area.heap x (memitemSize a s.memory x) newsize).memory ∧
      Carried a s.memory
        (MemHeap.growItem a s area.heap x (memitemSize a s.memory x) newsize).memory x x
          newsize := by
  rcases append_of_mem hx with ⟨before, after₀, hbs⟩
  rcases hinv.next_of_used hbs hfree with ⟨after, hafter⟩
  generalize hy : get s.memory .next x = y at *
  rw [hafter] at hbs
  have hbs' : bs = (before ++ [x]) ++ y :: after := by simp [hbs]
  have hymem : y ∈ bs := by simp [hbs]
  rcases hinv.item_bounds hx with ⟨hsizex, hgapx, -⟩
  rcases hinv.item_bounds hymem with ⟨hsizey, hgapy, hendy⟩
  rw [hsizex, hy, hsizey] at hroom
  rw [hy] at hgapx
  have hptr : add32 (x + memheapSize a) newsize = x + memheapSize a + newsize :=
    add32_eq_of_lt (by lia)
  have hlists := hinv.lists
  rw [hbs] at hlists
  rcases hlists.dropFree_framed hfree with ⟨hframed₁, hdata₁⟩
  rcases hlists.dropFree hused hfree with ⟨hlists₁, hkeeps₁, hnextx₁, -⟩
  have hnodup := hlists.ordered.nodup
  unfold MemHeap.growItem
  simp only [hy, hptr, hinv.freeList_eq]
  generalize unlinkBlock (unlinkFree s.memory y) y = m₁ at *
  have hused₁ : isUsed m₁ x = true :=
    (hkeeps₁.isUsed_eq (by decide) (item_mem (by simp))).trans hused
  have hxn : x + memheapSize a ≤ x + memheapSize a + newsize := Nat.le_add_right _ _
  have hnz : x + memheapSize a + newsize + memheapSize a ≤ get m₁ .next x := by lia
  rcases hlists₁.insertItem_framed hxn hnz with ⟨hframed₂, hdata₂⟩
  rcases hlists₁.insertItem hused₁ hxn hnz with ⟨hloose, -, -, hnextx, -, -, -, -⟩
  generalize insertItem m₁ area.heap x (x + memheapSize a + newsize) = m₂ at *
  have hpush : Framed area { j | j ∈ before ++ x :: after } m₂
      (pushFree m₂ area.head (x + memheapSize a + newsize)) := by
    apply hloose.pushFree_framed.mono
    intro j hj
    exact mem_split_behind hj
  have hpushx := hpush.kept x (by simp)
  dsimp only [State.update]
  constructor
  · rw [← hbs] at hframed₁
    have hsub : { j | (j ∈ bs ∧ isUsed s.memory j = true) ∧ j ≠ x } ⊆
        { j | j ∈ before ++ x :: after ∧ j ≠ x } := by
      intro j hj
      have hjy : j ≠ y := by
        intro heq
        have hjused := hj.1.2
        rw [heq, hfree] at hjused
        cases hjused
      exact ⟨(mem_remove hnodup).mpr ⟨hbs ▸ hj.1.1, hjy⟩, hj.2⟩
    have hsecond := (hframed₂.mono hsub).trans (hpush.mono fun j hj => (hsub hj).1)
    exact (hframed₁.mono fun j hj => ⟨hj.1.1, hj.2⟩).trans hsecond
  · constructor
    · rw [hpushx.next, hnextx]
    · intro k hk hold
      rw [hy] at hold
      rw [hpushx.data _ (by lia) (by lia), hdata₂ _ (by lia) (by lia), hdata₁ _ (by lia) hold]

theorem mergeSplit_fst (a : AlignSize) (m : Memory) (n available available' : ℕ) :
    (mergeSplit a m n available).1 = (mergeRight a m n available').1 := by
  unfold mergeSplit mergeRight
  rw [apply_ite Prod.fst, apply_ite Prod.fst]

theorem PoolInv.shrinkItem_data {newsize : ℕ} (hinv : PoolInv area s bs fs) (hx : x ∈ bs)
    (hused : isUsed s.memory x = true)
    (hroom : newsize + memheapSize a + miniAlloc < memitemSize a s.memory x) :
    Framed area { j | (j ∈ bs ∧ isUsed s.memory j = true) ∧ j ≠ x } s.memory
        (MemHeap.shrinkItem a s area.heap x newsize).memory ∧
      Carried a s.memory (MemHeap.shrinkItem a s area.heap x newsize).memory x x newsize := by
  rcases append_of_mem hx with ⟨before, after, hbs⟩
  rcases hinv.item_bounds hx with ⟨hsizex, hgapx, hendx⟩
  rw [hsizex] at hroom
  have hptr : add32 (add32 x newsize) (memheapSize a) = x + newsize + memheapSize a := by
    rw [add32_eq_of_lt (x := x) (by lia), add32_eq_of_lt (by lia)]
  have hlists := hinv.lists
  rw [hbs] at hlists
  have hxn : x + memheapSize a ≤ x + newsize + memheapSize a := by lia
  have hnz : x + newsize + memheapSize a + memheapSize a ≤ get s.memory .next x := by lia
  rcases hlists.insertItem_framed hxn hnz with ⟨hframed₁, hdata₁⟩
  rcases hlists.insertItem hused hxn hnz with ⟨hloose₁, -, husedx, hnextx, -, -, -, hflag₁⟩
  unfold MemHeap.shrinkItem
  simp only [hptr, hinv.freeList_eq]
  generalize hn : x + newsize + memheapSize a = n at *
  generalize insertItem s.memory area.heap x n = m₁ at *
  have hmerged : Framed area { j | j ∈ before ++ x :: after ∧ isUsed m₁ j = true } m₁
      (mergeSplit a m₁ n (s.heaps area.heap).availableSize).1 := by
    rw [mergeSplit_fst a m₁ n _ 0]
    apply (hloose₁.mergeRight_framed 0).mono
    intro j hj
    exact ⟨mem_split_behind hj.1, hj.2⟩
  rcases hloose₁.mergeRight with ⟨after', fs', hloose₂, -, -, -, -, -, hsame₂⟩
  rw [← mergeSplit_fst a m₁ n (s.heaps area.heap).availableSize] at hloose₂ hsame₂
  generalize mergeSplit a m₁ n (s.heaps area.heap).availableSize = r at *
  have hpush : Framed area { j | j ∈ before ++ x :: after ∧ isUsed m₁ j = true } r.1
      (pushFree r.1 area.head n) := by
    apply hloose₂.pushFree_framed.mono
    intro j hj
    exact ((hsame₂ j).mpr ⟨mem_split_behind hj.1, hj.2⟩).1
  have hsecond := hmerged.trans hpush
  have hkeptx := hsecond.kept x ⟨by simp, husedx⟩
  dsimp only [State.update]
  constructor
  · rw [← hbs] at hframed₁ hsecond hflag₁
    apply (hframed₁.mono fun j hj => ⟨hj.1.1, hj.2⟩).trans (hsecond.mono _)
    intro j hj
    have hjA : j ∈ itemSet area.head area.tail bs := item_mem hj.1.1
    exact ⟨hj.1.1, (hflag₁ j hjA).trans hj.1.2⟩
  · constructor
    · rw [hkeptx.next, hnextx]
      lia
    · intro k hk _
      rw [hkeptx.data _ (by lia) (by lia), hdata₁ _ (by lia) (by lia)]

/-! ## Writing to the data of an item -/

theorem PoolInv.keeps_of_within (hinv : PoolInv area s bs fs) (hy : y ∈ bs)
    (hwithin : ∀ b, b < y + memheapSize a ∨ get s.memory .next y ≤ b → m' b = s.memory b) :
    KeepsFields s.memory m' (itemSet area.head area.tail bs) [] := by
  have harea := hinv.rings.area_apart hinv.ordered area.headOutside hy
  intro i hi f _
  have hoffset := offset_le f
  have hapart := harea i hi
  apply Memory.load_congr
  intro b hlow hhigh
  apply hwithin
  omega

theorem PoolInv.framed_of_within (hinv : PoolInv area s bs fs) (hy : y ∈ bs)
    (hwithin : ∀ b, b < y + memheapSize a ∨ get s.memory .next y ≤ b → m' b = s.memory b) :
    Framed area { j | j ∈ bs ∧ j ≠ y } s.memory m' := by
  have hkeeps := hinv.keeps_of_within hy hwithin
  have hyA : y ∈ itemSet area.head area.tail bs := item_mem hy
  constructor
  · intro b hb
    rcases append_of_mem hy with ⟨before, after, hbs⟩
    rcases hinv.rings.around hinv.ordered hbs with ⟨-, -, -, -, -, hle⟩
    have hlow := hinv.ordered.start_le hy
    have htail := area.tail_eq
    unfold Area.Covers at hb
    apply hwithin
    lia
  · intro j hj
    have hjA : j ∈ itemSet area.head area.tail bs := item_mem hj.1
    have hyj := hinv.rings.area_apart hinv.ordered area.headOutside hy j hjA
    have hjy := hinv.rings.area_apart hinv.ordered area.headOutside hj.1 y hyA
    have hapart := hinv.ordered.apart (mem_append_left _ hj.1) (mem_append_left _ hy) hj.2
    constructor
    · exact hkeeps j hjA .next (not_mem_nil)
    · intro b hlow hhigh
      apply hwithin
      lia

/-! ## The calls -/

variable {used : ℕ → Prop}

section

variable (hholds : Holds area s used)
include hholds

theorem Holds.memitemSize_eq (hx : used x) :
    memitemSize a s.memory x = get s.memory .next x - x - memheapSize a ∧
      memitemSize a s.memory x + 2 * memheapSize a < 4294967296 := by
  rcases hholds with ⟨bs, fs, hinv, hused⟩
  have hxbs := ((hused x).mpr hx).1
  have hitem := hinv.rings.memitemSize_eq hinv.ordered hxbs
  rcases append_of_mem hxbs with ⟨before, after, hbs⟩
  rcases hinv.rings.around hinv.ordered hbs with ⟨-, -, -, hgap, -, hle⟩
  have hlow := hinv.ordered.start_le hxbs
  have htail := area.tail_eq
  have hpool := area.poolSize_le
  have hlt := area.size_lt
  refine ⟨hitem, ?_⟩
  omega

theorem Holds.rtMemheapAlloc_framed {result : State × ℕ}
    (hresult : MemHeap.rtMemheapAlloc a s area.heap size = some result) :
    Framed area { j | used j } s.memory result.1.memory := by
  rcases hholds with ⟨bs, fs, hinv, hused⟩
  exact (hinv.rtMemheapAlloc_framed hresult).mono fun j hj => (hused j).mpr hj

theorem Holds.rtMemheapFree_framed (hx : used x) :
    Framed area { j | used j ∧ j ≠ x } s.memory
      (MemHeap.rtMemheapFree a s (x + memheapSize a)).memory := by
  rcases hholds with ⟨bs, fs, hinv, hused⟩
  rcases (hused x).mpr hx with ⟨hxbs, hxused⟩
  exact (hinv.rtMemheapFree_framed hxbs hxused).mono fun j hj => ⟨(hused j).mpr hj.1, hj.2⟩

theorem Holds.write_within (hy : used y)
    (hwithin : ∀ b, b < y + memheapSize a ∨ get s.memory .next y ≤ b → m' b = s.memory b) :
    Holds area { s with memory := m' } used ∧ get m' .next y = get s.memory .next y ∧
      Framed area { j | used j ∧ j ≠ y } s.memory m' := by
  rcases hholds with ⟨bs, fs, hinv, hused⟩
  have hybs := ((hused y).mpr hy).1
  have hkeeps := hinv.keeps_of_within hybs hwithin
  have hyA : y ∈ itemSet area.head area.tail bs := item_mem hybs
  refine ⟨⟨bs, fs, hinv.of_keeps hkeeps, ?_⟩, hkeeps y hyA .next (not_mem_nil), ?_⟩
  · intro i
    rw [← hused i]
    exact hkeeps.sameUsed (by simp) i
  · exact (hinv.framed_of_within hybs hwithin).mono fun j hj => ⟨((hused j).mpr hj.1).1, hj.2⟩

theorem Holds.copy_within (hy : used y) (src count : ℕ)
    (hroom : y + memheapSize a + count ≤ get s.memory .next y) :
    let m' := s.memory.copy (y + memheapSize a) src count
    Holds area { s with memory := m' } used ∧ get m' .next y = get s.memory .next y ∧
      Framed area { j | used j ∧ j ≠ y } s.memory m' ∧
      ∀ k < count, m' (y + memheapSize a + k) = s.memory (src + k) := by
  have hwithin : ∀ b, b < y + memheapSize a ∨ get s.memory .next y ≤ b →
      s.memory.copy (y + memheapSize a) src count b = s.memory b := by
    intro b hb
    have hout : ¬(y + memheapSize a ≤ b ∧ b < y + memheapSize a + count) := by lia
    exact if_neg hout
  rcases hholds.write_within hy hwithin with ⟨hholds', hnext, hframed⟩
  refine ⟨hholds', hnext, hframed, ?_⟩
  intro k hk
  have hin : y + memheapSize a ≤ y + memheapSize a + k ∧
      y + memheapSize a + k < y + memheapSize a + count := by lia
  have hoff : y + memheapSize a + k - (y + memheapSize a) = k := by lia
  unfold Memory.copy
  rw [if_pos hin, hoff]

theorem Holds.moveItem_data {oldsize : ℕ} {result : State × ℕ}
    (hx : used x) (hsize : size + a.bytes ≤ 4294967296)
    (hold : x + memheapSize a + oldsize = get s.memory .next x)
    (hresult : MemHeap.moveItem a s area.heap (x + memheapSize a) oldsize size = some result) :
    Framed area { j | used j ∧ j ≠ x } s.memory result.1.memory ∧ (result.2 ≠ rtNull →
        ∃ y, result.2 = y + memheapSize a ∧ Carried a s.memory result.1.memory x y size) := by
  have halign := le_rtAlign a hsize
  have hitem := (itemSize_spec a size).1
  rcases hholds.rtMemheapAlloc size with ⟨⟨s₁, p⟩, halloc, hcases⟩
  have hframed₁ := hholds.rtMemheapAlloc_framed halloc
  unfold MemHeap.moveItem at hresult
  rw [halloc] at hresult
  dsimp only at hresult
  rcases hcases with hnull | ⟨y, hp, hfresh, hholds₁, hroom⟩
  · rw [Prod.mk.injEq] at hnull
    rw [if_neg (not_not_intro hnull.2), some.injEq] at hresult
    rw [← hresult]
    exact ⟨hframed₁.mono fun j hj => hj.1, fun hp => absurd hnull.2 hp⟩
  · dsimp only at hp hholds₁ hroom hframed₁
    have hne : x ≠ y := fun heq => hfresh (heq ▸ hx)
    rw [hp, if_pos (add_memheapSize_ne_null a y), some.injEq] at hresult
    generalize hcount : (if oldsize < size then oldsize else size) = count at *
    rcases hholds₁.copy_within (.inl rfl) (x + memheapSize a) count (by lia)
      with ⟨hholds₂, hnext₂, hframed₂, hcopy⟩
    generalize s₁.memory.copy (y + memheapSize a) (x + memheapSize a) count = m₂ at *
    have hframed₃ := hholds₂.rtMemheapFree_framed (.inr hx)
    dsimp only at hframed₃
    have hresult' := congrArg (fun r => r.1.memory) hresult
    rw [hresult'] at hframed₃
    have hy := hframed₃.kept y ⟨.inl rfl, hne.symm⟩
    constructor
    · have hsecond := hframed₂.mono (K := { j | used j ∧ j ≠ x }) fun j hj =>
        ⟨.inr hj.1, fun heq => hfresh (heq ▸ hj.1)⟩
      have hthird := hframed₃.mono (K := { j | used j ∧ j ≠ x }) fun j hj =>
        ⟨.inr hj.1, hj.2⟩
      exact ((hframed₁.mono fun j hj => hj.1).trans hsecond).trans hthird
    · intro _
      refine ⟨y, by rw [← hresult], ?_, ?_⟩
      · rw [hy.next, hnext₂]
        lia
      · intro k hk hkx
        have hkcount : k < count := by
          rw [← hcount]
          split_ifs <;> lia
        rw [hy.data _ (by lia) (by lia), hcopy k hkcount, (hframed₁.kept x hx).data _ (by lia) hkx]

theorem Holds.rtMemheapRealloc_data {newsize : ℕ} {result : State × ℕ}
    (hx : used x) (hpos : newsize ≠ 0)
    (hgrowth : ¬WrappedGrowth a s.memory x (itemSize a newsize)) (hresult :
      MemHeap.rtMemheapRealloc a s area.heap (x + memheapSize a) newsize = some result) :
    Framed area { j | used j ∧ j ≠ x } s.memory result.1.memory ∧
      (result.2 ≠ rtNull → ∃ y, result.2 = y + memheapSize a ∧
        Carried a s.memory result.1.memory x y (itemSize a newsize)) := by
  have hheader : x + memheapSize a - memheapSize a = x := by lia
  have hround := itemSize_add_le a newsize
  unfold MemHeap.rtMemheapRealloc at hresult
  simp only [if_neg (add_memheapSize_ne_null a x), hheader, if_neg hpos] at hresult
  generalize itemSize a newsize = size at *
  have hwhole := hholds
  rcases hholds with ⟨bs, fs, hinv, hused⟩
  rcases (hused x).mpr hx with ⟨hxbs, hxused⟩
  rcases hinv.item_bounds hxbs with ⟨hsizex, hgapx, hendx⟩
  have hheadSize := twentyFour_le_memheapSize a
  have hsub : { j | used j ∧ j ≠ x } ⊆ { j | (j ∈ bs ∧ isUsed s.memory j = true) ∧ j ≠ x } :=
    fun j hj => ⟨(hused j).mpr hj.1, hj.2⟩
  by_cases hgrow : size > memitemSize a s.memory x
  · rw [if_pos hgrow] at hresult
    by_cases hroom : (!isUsed s.memory (get s.memory .next x)) = true ∧
        add32 (memitemSize a s.memory (get s.memory .next x)) (memitemSize a s.memory x) >
          add32 size miniAlloc
    · rw [if_pos hroom, some.injEq] at hresult
      have hfree : isUsed s.memory (get s.memory .next x) = false := by simpa using hroom.1
      have hroom' := hroom.2
      rw [add32_eq_of_lt (lt_of_not_wrappedGrowth hgrowth hfree hroom')] at hroom'
      rcases hinv.growItem_data hxbs hxused hfree (lt_of_lt_of_le hroom' (add32_le _ _))
        with ⟨hframed, hcarried⟩
      rw [← hresult]
      exact ⟨hframed.mono hsub, fun _ => ⟨x, rfl, hcarried⟩⟩
    · rw [if_neg hroom] at hresult
      exact hwhole.moveItem_data hx hround (by lia) hresult
  · rw [if_neg hgrow] at hresult
    by_cases hsmall : add32 (add32 size (memheapSize a)) miniAlloc ≥ memitemSize a s.memory x
    · rw [if_pos hsmall, some.injEq] at hresult
      rw [← hresult]
      exact ⟨Framed.refl area _ s.memory, fun _ => ⟨x, rfl, ⟨by dsimp only; lia, fun _ _ _ => rfl⟩⟩⟩
    · rw [if_neg hsmall, some.injEq] at hresult
      have hroom : size + memheapSize a + miniAlloc < memitemSize a s.memory x := by
        unfold miniAlloc at *
        rw [add32_eq_of_lt (x := size) (by lia), add32_eq_of_lt (by lia)] at hsmall
        lia
      rcases hinv.shrinkItem_data hxbs hxused hroom with ⟨hframed, hcarried⟩
      rw [← hresult]
      exact ⟨hframed.mono hsub, fun _ => ⟨x, rfl, hcarried⟩⟩

end

end RtThread.MemHeap
