import RtThread.MemheapModel
import RtThread.LinkedRing

/-!
# The two lists of a memory heap

The items of a heap lie apart from each other, so a write to a word of one item
changes no other word of any item.  On this basis each list edit of `memheap.c`
is one step of the ring library, with a frame for the words it leaves alone.
-/

namespace RtThread.MemHeap

open List Word MemHeap.Field

/-- No two headers overlap. -/
structure Separated (A : Set ℕ) : Prop where
  lt : ∀ i ∈ A, i < 4294967296
  apart : ∀ i ∈ A, ∀ j ∈ A, i = j ∨ i + 24 ≤ j ∨ j + 24 ≤ i

theorem get_lt (m : Memory) (f : Field) (i : ℕ) : get m f i < 4294967296 :=
  Memory.load_lt m _ 4

theorem offset_le (f : Field) : f.offset ≤ 20 := by
  cases f <;> decide

theorem offset_apart {f g : Field} (hne : f ≠ g) :
    f.offset + 4 ≤ g.offset ∨ g.offset + 4 ≤ f.offset := by
  cases f <;> cases g <;> first | exact absurd rfl hne | decide

theorem Separated.get_set {A : Set ℕ} {m : Memory} {f g : Field} {i j v : ℕ} (hsep : Separated A)
    (hi : i ∈ A) (hj : j ∈ A) (hv : v < 4294967296) :
    get (set m f i v) g j = if f = g ∧ i = j then v else get m g j := by
  have hf := offset_le f
  have hg := offset_le g
  unfold get set
  by_cases hij : i = j
  · subst hij
    by_cases hfg : f = g
    · subst hfg
      rw [if_pos ⟨rfl, rfl⟩, Memory.load_store_same]
      exact Nat.mod_eq_of_lt hv
    · rw [if_neg (fun hsame => hfg hsame.1), Memory.load_store_of_apart]
      have := offset_apart hfg
      omega
  · rw [if_neg (fun hsame => hij hsame.2), Memory.load_store_of_apart]
    have := (hsep.apart i hi j hj).resolve_left hij
    omega

theorem Separated.get_pushFree {A : Set ℕ} {m : Memory} {f : Field} {head x j : ℕ}
    (hsep : Separated A) (hhead : head ∈ A) (hx : x ∈ A) (hnext : get m .nextFree head ∈ A)
    (hne : x ≠ head) (hj : j ∈ A) : get (pushFree m head x) f j =
      if Field.nextFree = f ∧ head = j then x
      else if Field.prevFree = f ∧ get m .nextFree head = j then x
      else if Field.prevFree = f ∧ x = j then head
      else if Field.nextFree = f ∧ x = j then get m .nextFree head
      else get m f j := by
  have hxlt := hsep.lt x hx
  have hhlt := hsep.lt head hhead
  have hq := get_lt m .nextFree head
  have hread : get (set (set m .nextFree x (get m .nextFree head)) .prevFree x head)
      .nextFree head = get m .nextFree head := by
    rw [hsep.get_set hx hhead hhlt, hsep.get_set hx hhead hq, if_neg (by simp),
      if_neg (by simp [hne])]
  unfold pushFree
  simp only [hread]
  rw [hsep.get_set hhead hj hxlt, hsep.get_set hnext hj hxlt, hsep.get_set hx hj hhlt,
    hsep.get_set hx hj hq]

/-- The items `bs` in front of the tailer `tail`, and the free items `fs`
behind `head`, are linked as rings. -/
structure Rings (m : Memory) (A : Set ℕ) (tail head : ℕ) (bs fs : List ℕ) : Prop where
  sep : Separated A
  block_mem : ∀ i ∈ tail :: bs, i ∈ A
  free_mem : ∀ i ∈ head :: fs, i ∈ A
  blockRing : IsRing (get m .next) (get m .prev) tail bs
  freeRing : IsRing (get m .nextFree) (get m .prevFree) head fs

def KeepsFields (m m' : Memory) (A : Set ℕ) (fields : List Field) : Prop :=
  ∀ j ∈ A, ∀ f, f ∉ fields → get m' f j = get m f j

variable {m m' : Memory} {A : Set ℕ} {tail head x y n heap v : ℕ} {bs fs : List ℕ}

namespace Rings

section

variable (hrings : Rings m A tail head bs fs)
include hrings

theorem of_keeps (hkeeps : KeepsFields m m' A [.magic, .poolPtr]) : Rings m' A tail head bs fs := by
  have hsame : ∀ j ∈ A, ∀ f, f ∉ [magic, .poolPtr] → get m' f j = get m f j := hkeeps
  constructor
  · exact hrings.sep
  · exact hrings.block_mem
  · exact hrings.free_mem
  · apply hrings.blockRing.congr
    · intro j hj
      exact hsame j (hrings.block_mem j hj) _ (by decide)
    · intro j hj
      exact hsame j (hrings.block_mem j hj) _ (by decide)
  · apply hrings.freeRing.congr
    · intro j hj
      exact hsame j (hrings.free_mem j hj) _ (by decide)
    · intro j hj
      exact hsame j (hrings.free_mem j hj) _ (by decide)

theorem blockRing_of_keeps (hkeeps : KeepsFields m m' A [.nextFree, .prevFree]) :
    IsRing (get m' .next) (get m' .prev) tail bs := by
  apply hrings.blockRing.congr
  · intro j hj
    exact hkeeps j (hrings.block_mem j hj) _ (by decide)
  · intro j hj
    exact hkeeps j (hrings.block_mem j hj) _ (by decide)

theorem freeRing_of_keeps (hkeeps : KeepsFields m m' A [.magic, .poolPtr, .next, .prev]) :
    IsRing (get m' .nextFree) (get m' .prevFree) head fs := by
  apply hrings.freeRing.congr
  · intro j hj
    exact hkeeps j (hrings.free_mem j hj) _ (by decide)
  · intro j hj
    exact hkeeps j (hrings.free_mem j hj) _ (by decide)

theorem nextFree_mem (hx : x ∈ head :: fs) : get m .nextFree x ∈ A :=
  hrings.free_mem _ (hrings.freeRing.next_mem hx)

theorem prevFree_mem (hx : x ∈ head :: fs) : get m .prevFree x ∈ A :=
  hrings.free_mem _ (hrings.freeRing.prev_mem hx)

theorem unlinkFree (hx : x ∈ fs) : Rings (unlinkFree m x) A tail head bs (fs.erase x) ∧
      KeepsFields m (MemHeap.unlinkFree m x) A [.nextFree, .prevFree] := by
  have hsep := hrings.sep
  have hxA := hrings.free_mem x (mem_cons_of_mem _ hx)
  have hqA := hrings.nextFree_mem (mem_cons_of_mem _ hx)
  have hpA := hrings.prevFree_mem (mem_cons_of_mem _ hx)
  have hp := get_lt m .prevFree x
  have hq := get_lt m .nextFree x
  have hvalue : ∀ j ∈ A, ∀ f, get (MemHeap.unlinkFree m x) f j =
      if nextFree = f ∧ get m .prevFree x = j then get m .nextFree x
      else if prevFree = f ∧ get m .nextFree x = j then get m .prevFree x
      else get m f j := by
    intro j hj f
    have hback : get (set m .prevFree (get m .nextFree x) (get m .prevFree x))
        .prevFree x = get m .prevFree x := by
      rw [hsep.get_set hqA hxA hp]
      split_ifs <;> rfl
    have hforth : get (set m .prevFree (get m .nextFree x) (get m .prevFree x))
        .nextFree x = get m .nextFree x := by
      rw [hsep.get_set hqA hxA hp, if_neg (by simp)]
    unfold MemHeap.unlinkFree
    simp only [hback, hforth]
    rw [hsep.get_set hpA hj hq, hsep.get_set hqA hj hp]
  have hkeeps : KeepsFields m (MemHeap.unlinkFree m x) A [.nextFree, .prevFree] := by
    intro j hj f hf
    simp only [mem_cons, not_mem_nil, or_false, not_or] at hf
    rw [hvalue j hj f, if_neg (fun h => hf.1 h.1.symm), if_neg (fun h => hf.2 h.1.symm)]
  refine ⟨?_, hkeeps⟩
  constructor
  · exact hsep
  · exact hrings.block_mem
  · intro i hi
    apply hrings.free_mem i
    rcases mem_cons.mp hi with rfl | hi
    · exact mem_cons_self
    · exact mem_cons_of_mem _ (mem_of_mem_erase hi)
  · exact hrings.blockRing_of_keeps hkeeps
  · apply hrings.freeRing.erase hx
    · rw [hvalue _ hpA]
      simp
    · rw [hvalue _ hqA]
      simp
    · intro j hj _ hne
      rw [hvalue j (hrings.free_mem j hj)]
      simp [hne.symm]
    · intro j hj _ hne
      rw [hvalue j (hrings.free_mem j hj)]
      simp [hne.symm]

theorem pushFree (hxA : x ∈ A) (hx : x ∉ head :: fs) :
    Rings (pushFree m head x) A tail head bs (x :: fs) ∧
      KeepsFields m (MemHeap.pushFree m head x) A [.nextFree, .prevFree] := by
  have hsep := hrings.sep
  have hhead := hrings.free_mem head mem_cons_self
  have hqA := hrings.nextFree_mem (mem_cons_self : head ∈ head :: fs)
  have hqmem := hrings.freeRing.next_mem (mem_cons_self : head ∈ head :: fs)
  have hxh : x ≠ head := fun heq => hx (heq ▸ mem_cons_self)
  have hxq : x ≠ get m .nextFree head := fun heq => hx (heq ▸ hqmem)
  have hvalue : ∀ j ∈ A, ∀ f, get (MemHeap.pushFree m head x) f j =
      if nextFree = f ∧ head = j then x
      else if prevFree = f ∧ get m .nextFree head = j then x
      else if prevFree = f ∧ x = j then head
      else if nextFree = f ∧ x = j then get m .nextFree head
      else get m f j :=
    fun j hj f => hsep.get_pushFree hhead hxA hqA hxh hj
  have hkeeps : KeepsFields m (MemHeap.pushFree m head x) A [.nextFree, .prevFree] := by
    intro j hj f hf
    simp only [mem_cons, not_mem_nil, or_false, not_or] at hf
    rw [hvalue j hj f]
    simp [Ne.symm hf.1, Ne.symm hf.2]
  refine ⟨?_, hkeeps⟩
  constructor
  · exact hsep
  · exact hrings.block_mem
  · intro i hi
    simp only [mem_cons] at hi
    rcases hi with hi | hi | hi
    · exact hi ▸ hhead
    · exact hi ▸ hxA
    · exact hrings.free_mem i (mem_cons_of_mem _ hi)
  · exact hrings.blockRing_of_keeps hkeeps
  · apply hrings.freeRing.push hx
    · rw [hvalue _ hhead]
      simp
    · rw [hvalue _ hxA]
      simp [hxq.symm]
    · rw [hvalue _ hxA]
      simp [hxh.symm]
    · rw [hvalue _ hqA]
      simp
    · intro j hj hne
      have hxj : x ≠ j := fun heq => hx (heq ▸ hj)
      rw [hvalue j (hrings.free_mem j hj)]
      simp [hne.symm, hxj]
    · intro j hj hne
      have hxj : x ≠ j := fun heq => hx (heq ▸ hj)
      rw [hvalue j (hrings.free_mem j hj)]
      simp [hne.symm, hxj]

theorem next_mem (hx : x ∈ tail :: bs) : get m .next x ∈ A :=
  hrings.block_mem _ (hrings.blockRing.next_mem hx)

theorem prev_mem (hx : x ∈ tail :: bs) : get m .prev x ∈ A :=
  hrings.block_mem _ (hrings.blockRing.prev_mem hx)

end

end Rings

def RemovesBlock (m m' : Memory) (A : Set ℕ) (y : ℕ) : Prop :=
  ∀ j ∈ A, ∀ f, get m' f j = if Field.next = f ∧ get m .prev y = j then get m .next y
    else if Field.prev = f ∧ get m .next y = j then get m .prev y
    else get m f j

section

variable (hrings : Rings m A tail head bs fs)
include hrings

theorem Rings.unlinkBlock_removes (hy : y ∈ tail :: bs) : RemovesBlock m (unlinkBlock m y) A y := by
  have hsep := hrings.sep
  have hyA := hrings.block_mem y hy
  have hqA := hrings.next_mem hy
  have hpA := hrings.prev_mem hy
  have hp := get_lt m .prev y
  have hq := get_lt m .next y
  intro j hj f
  have hback : get (set m .prev (get m .next y) (get m .prev y)) .prev y = get m .prev y := by
    rw [hsep.get_set hqA hyA hp]
    split_ifs <;> rfl
  have hforth : get (set m .prev (get m .next y) (get m .prev y)) .next y = get m .next y := by
    rw [hsep.get_set hqA hyA hp, if_neg (by simp)]
  unfold unlinkBlock
  simp only [hback, hforth]
  rw [hsep.get_set hpA hj hq, hsep.get_set hqA hj hp]

theorem Rings.mergeNext_removes (hx : x ∈ tail :: bs)
    (hy : get m .next x = y) : RemovesBlock m (mergeNext m x y) A y := by
  have hsep := hrings.sep
  have hymem : y ∈ tail :: bs := hy ▸ hrings.blockRing.next_mem hx
  have hprev : get m .prev y = x := by
    rw [← hy]
    exact hrings.blockRing.prev_next hx
  have hxA := hrings.block_mem x hx
  have hyA := hrings.block_mem y hymem
  have hqA := hrings.next_mem hymem
  have hq := get_lt m .next y
  have hxlt := hsep.lt x hxA
  intro j hj f
  have hforth : get (set m .prev (get m .next y) x) .next y = get m .next y := by
    rw [hsep.get_set hqA hyA hxlt, if_neg (by simp)]
  unfold mergeNext
  simp only [hforth, hprev]
  rw [hsep.get_set hxA hj hq, hsep.get_set hqA hj hxlt]

theorem Rings.mergePrev_removes (hy : y ∈ tail :: bs) : RemovesBlock m (mergePrev m y) A y := by
  have hsep := hrings.sep
  have hyA := hrings.block_mem y hy
  have hqA := hrings.next_mem hy
  have hpA := hrings.prev_mem hy
  have hp := get_lt m .prev y
  have hq := get_lt m .next y
  intro j hj f
  have hback : get (set m .next (get m .prev y) (get m .next y)) .prev y = get m .prev y := by
    rw [hsep.get_set hpA hyA hq, if_neg (by simp)]
  have hforth : get (set m .next (get m .prev y) (get m .next y)) .next y = get m .next y := by
    rw [hsep.get_set hpA hyA hq]
    split_ifs <;> rfl
  unfold mergePrev
  simp only [hback, hforth]
  rw [hsep.get_set hqA hj hp, hsep.get_set hpA hj hq]
  cases f <;> simp

theorem Rings.removeBlock (hy : y ∈ bs)
    (hremoves : RemovesBlock m m' A y) : Rings m' A tail head (bs.erase y) fs ∧
      KeepsFields m m' A [.next, .prev] ∧ get m' .next (get m .prev y) = get m .next y ∧
      ∀ j ∈ A, j ≠ get m .prev y → get m' .next j = get m .next j := by
  have hytail : y ∈ tail :: bs := mem_cons_of_mem _ hy
  have hpA := hrings.prev_mem hytail
  have hqA := hrings.next_mem hytail
  have hnextp : get m' .next (get m .prev y) = get m .next y := by
    rw [hremoves _ hpA]
    simp
  have hnext : ∀ j ∈ A, j ≠ get m .prev y → get m' .next j = get m .next j := by
    intro j hj hne
    rw [hremoves j hj]
    simp [hne.symm]
  have hkeeps : KeepsFields m m' A [.next, .prev] := by
    intro j hj f hf
    simp only [mem_cons, not_mem_nil, or_false, not_or] at hf
    rw [hremoves j hj f]
    simp [Ne.symm hf.1, Ne.symm hf.2]
  refine ⟨?_, hkeeps, hnextp, hnext⟩
  constructor
  · exact hrings.sep
  · intro i hi
    apply hrings.block_mem i
    rcases mem_cons.mp hi with rfl | hi
    · exact mem_cons_self
    · exact mem_cons_of_mem _ (mem_of_mem_erase hi)
  · exact hrings.free_mem
  · apply hrings.blockRing.erase hy
    · exact hnextp
    · rw [hremoves _ hqA]
      simp
    · intro j hj _ hne
      exact hnext j (hrings.block_mem j hj) hne
    · intro j hj _ hne
      rw [hremoves j (hrings.block_mem j hj)]
      simp [hne.symm]
  · apply hrings.freeRing_of_keeps
    intro j hj f hf
    apply hkeeps j hj f
    simp only [mem_cons, not_mem_nil, or_false, not_or] at hf ⊢
    exact ⟨hf.2.2.1, hf.2.2.2⟩

theorem Rings.insertItem {before after : List ℕ}
    (hbs : bs = before ++ x :: after) (hnA : n ∈ A) (hn : n ∉ tail :: bs)
    (hheap : heap < 4294967296) : let m' := insertItem m heap x n
    Rings m' A tail head (before ++ x :: n :: after) fs ∧
      KeepsFields m m' A [.magic, .poolPtr, .next, .prev] ∧
      get m' .magic n = memheapMagic ∧ get m' .poolPtr n = heap ∧
      get m' .next n = get m .next x ∧ get m' .next x = n ∧
      ∀ j ∈ A, j ≠ n → get m' .magic j = get m .magic j ∧ get m' .poolPtr j = get m .poolPtr j ∧
        (j ≠ x → get m' .next j = get m .next j) := by
  intro m'
  have hsep := hrings.sep
  have hx : x ∈ tail :: bs := by simp [hbs]
  have hxA := hrings.block_mem x hx
  have hqA := hrings.next_mem hx
  have hqmem := hrings.blockRing.next_mem hx
  have hq := get_lt m .next x
  have hxlt := hsep.lt x hxA
  have hnlt := hsep.lt n hnA
  have hmagic : memheapMagic < 4294967296 := by decide
  have hnx : n ≠ x := fun heq => hn (heq ▸ hx)
  have hnq : n ≠ get m .next x := fun heq => hn (heq ▸ hqmem)
  have hvalue : ∀ j ∈ A, ∀ f, get m' f j = if next = f ∧ x = j then n
      else if prev = f ∧ get m .next x = j then n
      else if next = f ∧ n = j then get m .next x
      else if prev = f ∧ n = j then x
      else if poolPtr = f ∧ n = j then heap
      else if magic = f ∧ n = j then memheapMagic
      else get m f j := by
    intro j hj f
    have hread : get (set (set (set m .magic n memheapMagic) .poolPtr n heap) .prev n x)
        .next x = get m .next x := by
      rw [hsep.get_set hnA hxA hxlt, hsep.get_set hnA hxA hheap, hsep.get_set hnA hxA hmagic]
      simp
    have hread' : get (set (set (set (set m .magic n memheapMagic) .poolPtr n heap)
        .prev n x) .next n (get m .next x)) .next x = get m .next x := by
      rw [hsep.get_set hnA hxA hq, if_neg (by simp [hnx]), hread]
    show get (MemHeap.insertItem m heap x n) f j = _
    unfold MemHeap.insertItem
    simp only [hread, hread']
    rw [hsep.get_set hxA hj hnlt, hsep.get_set hqA hj hnlt, hsep.get_set hnA hj hq,
      hsep.get_set hnA hj hxlt, hsep.get_set hnA hj hheap, hsep.get_set hnA hj hmagic]
  have hkeeps : KeepsFields m m' A [.magic, .poolPtr, .next, .prev] := by
    intro j hj f hf
    simp only [mem_cons, not_mem_nil, or_false, not_or] at hf
    rw [hvalue j hj f]
    simp [Ne.symm hf.1, Ne.symm hf.2.1, Ne.symm hf.2.2.1, Ne.symm hf.2.2.2]
  have hnextn : get m' .next n = get m .next x := by
    rw [hvalue n hnA]
    simp [hnx.symm]
  have hnextx : get m' .next x = n := by
    rw [hvalue x hxA]
    simp
  refine ⟨?_, hkeeps, ?_, ?_, hnextn, hnextx, ?_⟩
  · constructor
    · exact hsep
    · intro i hi
      simp only [mem_cons, mem_append] at hi
      by_cases hin : i = n
      · exact hin ▸ hnA
      · apply hrings.block_mem i
        rw [hbs]
        simp only [mem_cons, mem_append]
        rcases hi with hi | hi | hi | hi | hi
        · exact .inl hi
        · exact .inr (.inl hi)
        · exact .inr (.inr (.inl hi))
        · contradiction
        · exact .inr (.inr (.inr hi))
    · exact hrings.free_mem
    · have hxs : tail :: bs = (tail :: before) ++ x :: after := by
        rw [hbs]
        simp
      apply hrings.blockRing.insert hxs (cons_append).symm hn hnextx
      · rw [hvalue n hnA]
        simp [hnq.symm]
      · exact hnextn
      · rw [hvalue _ hqA]
        simp
      · intro j hj hne
        have hnj : n ≠ j := fun heq => hn (heq ▸ hj)
        rw [hvalue j (hrings.block_mem j hj)]
        simp [hne.symm, hnj]
      · intro j hj hne
        have hnj : n ≠ j := fun heq => hn (heq ▸ hj)
        rw [hvalue j (hrings.block_mem j hj)]
        simp [hne.symm, hnj]
    · exact hrings.freeRing_of_keeps hkeeps
  · rw [hvalue n hnA]
    simp
  · rw [hvalue n hnA]
    simp
  · intro j hj hjn
    refine ⟨?_, ?_, ?_⟩
    · rw [hvalue j hj]
      simp [hjn.symm]
    · rw [hvalue j hj]
      simp [hjn.symm]
    · intro hjx
      rw [hvalue j hj]
      simp [hjx.symm, hjn.symm]

theorem Rings.set_magic (hxA : x ∈ A) (hv : v < 4294967296) :
    Rings (set m .magic x v) A tail head bs fs ∧ KeepsFields m (set m .magic x v) A [.magic] ∧
      get (set m .magic x v) .magic x = v ∧
      ∀ j ∈ A, j ≠ x → get (set m .magic x v) .magic j = get m .magic j := by
  have hsep := hrings.sep
  have hkeeps : KeepsFields m (set m .magic x v) A [.magic] := by
    intro j hj f hf
    rw [hsep.get_set hxA hj hv, if_neg]
    intro hsame
    exact hf (by simp [← hsame.1])
  refine ⟨?_, hkeeps, ?_, ?_⟩
  · apply hrings.of_keeps
    intro j hj f hf
    apply hkeeps j hj f
    simp only [mem_cons, not_mem_nil, or_false, not_or] at hf ⊢
    exact hf.1
  · rw [hsep.get_set hxA hxA hv]
    simp
  · intro j hj hne
    rw [hsep.get_set hxA hj hv]
    simp [hne.symm]

theorem Rings.clearFree (hxA : x ∈ A) (hx : x ∉ head :: fs) :
    Rings (clearFree m x) A tail head bs fs ∧
      KeepsFields m (MemHeap.clearFree m x) A [.nextFree, .prevFree] := by
  have hsep := hrings.sep
  have hnull : rtNull < 4294967296 := by decide
  have hvalue : ∀ j ∈ A, ∀ f, get (MemHeap.clearFree m x) f j =
      if prevFree = f ∧ x = j then rtNull
      else if nextFree = f ∧ x = j then rtNull
      else get m f j := by
    intro j hj f
    unfold MemHeap.clearFree
    rw [hsep.get_set hxA hj hnull, hsep.get_set hxA hj hnull]
  have hkeeps : KeepsFields m (MemHeap.clearFree m x) A [.nextFree, .prevFree] := by
    intro j hj f hf
    simp only [mem_cons, not_mem_nil, or_false, not_or] at hf
    rw [hvalue j hj f]
    simp [Ne.symm hf.1, Ne.symm hf.2]
  refine ⟨?_, hkeeps⟩
  constructor
  · exact hsep
  · exact hrings.block_mem
  · exact hrings.free_mem
  · exact hrings.blockRing_of_keeps hkeeps
  · apply hrings.freeRing.congr
    · intro j hj
      have hxj : x ≠ j := fun heq => hx (heq ▸ hj)
      rw [hvalue j (hrings.free_mem j hj)]
      simp [hxj]
    · intro j hj
      have hxj : x ≠ j := fun heq => hx (heq ▸ hj)
      rw [hvalue j (hrings.free_mem j hj)]
      simp [hxj]

end

end RtThread.MemHeap
