import RtThread.SmallMemRuns

/-!
# The data areas of the small-memory heap

The allocator writes to headers, and `rt_realloc` copies to a new block; every
other byte belongs to the application.  This module follows the bytes of the
used blocks through the calls, in runs where the application also writes to the
data areas it owns.
-/

namespace RtThread.SmallMem

open List Option Word

variable {a : AlignSize} {h h' h'' : Heap} {s s' : HeapState}
variable {bs before after : List ℕ} {H : Set ℕ} {x y n size newsize : ℕ}

def HeaderWrites (H : Set ℕ) (h h' : Heap) : Prop :=
  ∀ i, (∀ b ∈ H, i < b ∨ b + 12 ≤ i) → h'.memory i = h.memory i

namespace HeaderWrites

theorem refl (H : Set ℕ) (h : Heap) : HeaderWrites H h h := fun _ _ => rfl

theorem trans (hfirst : HeaderWrites H h h') (hsecond : HeaderWrites H h' h'') :
    HeaderWrites H h h'' :=
  fun i hi => (hsecond i hi).trans (hfirst i hi)

theorem mono {H' : Set ℕ} (hwrites : HeaderWrites H h h') (hsub : H ⊆ H') : HeaderWrites H' h h' :=
  fun i hi => hwrites i fun b hb => hi b (hsub hb)

section

variable (hx : x ∈ H)
include hx

theorem of_store {shift width value : ℕ} (hfield : shift + width ≤ 12) :
    HeaderWrites H h { h with memory := h.memory.store (x + shift) width value } := by
  intro i hi
  have hout : ¬(x + shift ≤ i ∧ i < x + shift + width) := by
    have := hi x hx
    omega
  simp [Memory.store, hout]

theorem setMagic (value : ℕ) : HeaderWrites H h (h.setMagic x value) := by
  have hfield : 0 + 2 ≤ 12 := by decide
  exact of_store hx hfield

theorem setUsed (value : ℕ) : HeaderWrites H h (h.setUsed x value) :=
  of_store hx (by decide)

theorem setNext (value : ℕ) : HeaderWrites H h (h.setNext x value) :=
  of_store hx (by decide)

theorem setPrev (value : ℕ) : HeaderWrites H h (h.setPrev x value) :=
  of_store hx (by decide)

theorem combine (hz : (h.header y).next ∈ H) (hapart : x + 12 ≤ y) :
    HeaderWrites H h (combine h x y) := by
  have hread : ((h.setNext x (h.header y).next).header y).next = (h.header y).next := by
    rw [Heap.header_setNext_of_apart h (by omega)]
  have hmemory : (SmallMem.combine h x y).memory =
      ((h.setNext x (h.header y).next).setPrev (h.header y).next x).memory := by
    unfold SmallMem.combine
    split_ifs
    · simp only [Heap.header, Heap.setNext, Heap.setPrev] at hread ⊢
      rw [hread]
    · simp only [Heap.header, Heap.setNext, Heap.setPrev] at hread ⊢
      rw [hread]
  intro i hi
  rw [hmemory]
  exact ((setNext hx _).trans (setPrev hz x)) i hi

theorem insertBlock (hn : n ∈ H) (hz : (h.header x).next ∈ H)
    (hxn : x + 12 ≤ n) (hnz : n ≤ (h.header x).next) (hnext : (h.header x).next < 4294967296) :
    HeaderWrites H h (insertBlock a h x n) := by
  have hread : ((h.setUsed n 0).header x).next = (h.header x).next := by
    rw [Heap.header_setUsed_of_apart _ (by omega)]
  have hwritten := (((setUsed (h := h) hn 0).trans (setNext hn (h.header x).next)).trans
    (setPrev hn x)).trans (setNext hx n)
  have hback : (((((h.setUsed n 0).setNext n (h.header x).next).setPrev n x).setNext
      x n).header n).next = (h.header x).next := by
    rw [Heap.header_setNext_of_apart _ (by omega), Heap.header_setPrev _ (by omega),
      Heap.header_setNext _ hnext]
  unfold SmallMem.insertBlock
  simp only [hread, hback]
  split_ifs
  · exact hwritten.trans (setPrev hz n)
  · exact hwritten

theorem markUsed : HeaderWrites H h (markUsed h x) := by
  have haccount : HeaderWrites H (h.setUsed x 1)
      (accountUsed (h.setUsed x 1) (sub32 (h.header x).next x)) := by
    intro i _
    unfold accountUsed
    simp only
    split_ifs <;> rfl
  exact ((setUsed hx 1).trans haccount).trans (setMagic hx heapMagic)

theorem markFree : HeaderWrites H h (markFree h x) := by
  have hwritten := (setUsed (h := h) hx 0).trans (setMagic hx 0)
  unfold SmallMem.markFree
  simp only
  split_ifs
  · exact hwritten
  · exact hwritten

theorem cutBlock {released : ℕ} (hn : n ∈ H) (hz : (h.header x).next ∈ H)
    (hxn : x + 12 ≤ n) (hnz : n ≤ (h.header x).next) (hnext : (h.header x).next < 4294967296) :
    HeaderWrites H h (cutBlock a h x n released) := by
  have hmarked : HeaderWrites H h
      (Heap.setMagic { h with usedMem := sub32 h.usedMem released } n heapMagic) :=
    setMagic hn heapMagic
  have hheader : (Heap.setMagic { h with usedMem := sub32 h.usedMem released } n
      heapMagic).header x = h.header x := by
    rw [Heap.header_setMagic_of_apart _ (by omega)]
    rfl
  apply hmarked.trans
  rw [← hheader] at hz hnz hnext
  exact insertBlock hx hn hz hxn hnz hnext

end

end HeaderWrites

def headers (h : Heap) (bs : List ℕ) : Set ℕ := {b | b ∈ bs ++ [h.heapEnd]}

theorem Blocks.prev_mem (hblocks : Blocks a h bs) (hx : x ∈ bs) (hne : (h.header x).prev ≠ x) :
    (h.header x).prev ∈ bs ∧ (h.header x).prev + sizeofStructMem a ≤ x := by
  rcases append_of_mem hx with ⟨before, after, hbs⟩
  rcases eq_nil_or_concat before with hnil | ⟨before', p, hconcat⟩
  · have hfirst := hblocks.first
    rw [hbs, hnil] at hfirst
    have hzero : x = 0 := by simpa using hfirst
    rw [hzero, hblocks.prev_first] at hne
    contradiction
  · rw [concat_eq_append] at hconcat
    have hbs' : bs = before' ++ p :: x :: after := by
      rw [hbs, hconcat]
      simp
    rcases hblocks.around hbs with ⟨-, -, hbefore, -, -, -⟩
    rw [hblocks.prev_eq hbs']
    exact ⟨by simp [hbs'], hbefore p (by simp [hconcat])⟩

theorem Blocks.next_lt (hblocks : Blocks a h bs) (hx : x ∈ bs) :
    x + sizeofStructMem a ≤ (h.header x).next ∧ (h.header x).next < 4294967296 := by
  have hfits := hblocks.fits
  rcases append_of_mem hx with ⟨before, after, hbs⟩
  rcases hblocks.around hbs with ⟨-, -, -, hgap, -, hle⟩
  exact ⟨hgap, by omega⟩

theorem plugHoles_writes (hblocks : Blocks a h bs) (hx : x ∈ bs) :
    HeaderWrites (headers h bs) h (plugHoles h x) := by
  have hsize := twelve_le_sizeofStructMem a
  have hmem : ∀ b ∈ bs, b ∈ headers h bs := fun b hb => mem_append_left _ hb
  have hnext := hblocks.next_lt hx
  have hnextMem : (h.header x).next ∈ headers h bs := hblocks.next_mem (hmem x hx)
  generalize hjoined : (if x ≠ (h.header x).next ∧
    (h.header (h.header x).next).used = 0 ∧ (h.header x).next ≠ h.heapEnd
    then combine h x (h.header x).next else h) = h₁
  have hforward : HeaderWrites (headers h bs) h h₁ ∧
      (h₁.header x).prev = (h.header x).prev ∧ (h₁.header x).next ∈ headers h bs := by
    rw [← hjoined]
    split_ifs with hfree
    · have hy : (h.header x).next ∈ bs := by
        rcases mem_append.mp hnextMem with hy | hy
        · exact hy
        · exact absurd (mem_singleton.mp hy) hfree.2.2
      have hnexty := hblocks.next_lt hy
      have hz : (h.header (h.header x).next).next ∈ headers h bs := hblocks.next_mem hnextMem
      rcases combine_header (h := h) (x := x) (y := (h.header x).next) rfl (by omega)
        (by omega) hnexty.2 with ⟨hheadx, -, -⟩
      rw [hheadx]
      exact ⟨.combine (hmem x hx) hz (by omega), rfl, hz⟩
    · exact ⟨.refl _ h, rfl, hnextMem⟩
  rcases hforward with ⟨hwrites, hprev, hz⟩
  unfold plugHoles
  simp only [hjoined, hprev]
  split_ifs with hfree
  · rcases hblocks.prev_mem hx hfree.1 with ⟨hp, hgap⟩
    exact hwrites.trans (.combine (hmem _ hp) hz (by omega))
  · exact hwrites

def KeepsData (a : AlignSize) (h : Heap) (bs : List ℕ) (h' : Heap) (isKept : ℕ → Prop) : Prop :=
  ∀ b ∈ usedBlocks h bs, isKept b →
    ∀ i, b + sizeofStructMem a ≤ i → i < (h.header b).next → h'.memory i = h.memory i

theorem Blocks.byte_eq_of_writes
    (hblocks : Blocks a h bs) (hwrites : HeaderWrites (headers h bs) h h') (hx : x ∈ bs)
    {i : ℕ} (hlow : x + sizeofStructMem a ≤ i) (hhigh : i < (h.header x).next) :
    h'.memory i = h.memory i := by
  have hsize := twelve_le_sizeofStructMem a
  apply hwrites
  intro b hb
  have hapart := hblocks.apart_of_inside hx hb hlow
  omega

theorem Blocks.data_apart (hblocks : Blocks a h bs) (hx : x ∈ bs) (hy : y ∈ bs) (hne : x ≠ y) :
    (h.header x).next ≤ y ∨ (h.header y).next ≤ x := by
  have hxy := hblocks.apart_of_inside hx (mem_append_left _ hy) le_rfl
  have hyx := hblocks.apart_of_inside hy (mem_append_left _ hx) le_rfl
  omega

theorem Blocks.keepsData_of_writes (hblocks : Blocks a h bs) (hx : x ∈ bs)
    (hxn : x + sizeofStructMem a ≤ n) (hnz : n + sizeofStructMem a ≤ (h.header x).next)
    (hwrites : HeaderWrites (insert n (headers h bs)) h h') :
    KeepsData a h bs h' (fun b => b ≠ x) := by
  have hsize := twelve_le_sizeofStructMem a
  intro b hb hne i hlow hhigh
  have hmem := (mem_usedBlocks.mp hb).1
  apply hwrites
  intro c hc
  rcases Set.mem_insert_iff.mp hc with heq | hc
  · have hapart := hblocks.data_apart hmem hx hne
    lia
  · have hapart := hblocks.apart_of_inside hmem hc hlow
    lia

theorem moveLfree_memory (hmove : moveLfree h x = some h') : h'.memory = h.memory := by
  unfold moveLfree at hmove
  split_ifs at hmove
  · split at hmove
    · simp at hmove
    · rw [← some.inj hmove]
  · rw [← some.inj hmove]

theorem takeBlock_keepsData (hblocks : Blocks a h bs) (hx : x ∈ bs) (hfree : (h.header x).used = 0)
    (hfit : x + sizeofStructMem a + size ≤ (h.header x).next) :
    KeepsData a h bs (takeBlock a h x size) (fun _ => True) := by
  have hsize := twelve_le_sizeofStructMem a
  have hmem : x ∈ headers h bs := mem_append_left _ hx
  rcases takeBlock_cases hblocks hx hfit with heq | ⟨hcut, heq⟩
  · rw [heq]
    intro b hb _ i hlow hhigh
    exact hblocks.byte_eq_of_writes (.markUsed hmem) (mem_usedBlocks.mp hb).1 hlow hhigh
  · rw [heq]
    have hsub : headers h bs ⊆ insert (x + sizeofStructMem a + size) (headers h bs) :=
      Set.subset_insert _ _
    have hwrites : HeaderWrites (insert (x + sizeofStructMem a + size) (headers h bs)) h
        (insertBlock a h x (x + sizeofStructMem a + size)) :=
      .insertBlock (hsub hmem) (Set.mem_insert _ _) (hsub (hblocks.next_mem hmem))
        (by omega) (by omega) (hblocks.next_lt hx).2
    have hkeeps := hblocks.keepsData_of_writes hx (by omega) hcut
      (hwrites.trans (.markUsed (hsub hmem)))
    intro b hb _
    apply hkeeps b hb
    intro hbx
    exact (mem_usedBlocks.mp hb).2 (hbx ▸ hfree)

theorem rtMalloc_keepsData {result : Heap × ℕ} (hinv : HeapInv a h bs)
    (hmalloc : rtMalloc a h size = some result) : KeepsData a h bs result.1 (fun _ => True) := by
  have hsame : KeepsData a h bs h (fun _ => True) := fun _ _ _ _ _ _ => rfl
  unfold rtMalloc at hmalloc
  simp only at hmalloc
  split_ifs at hmalloc with hzero hlarge
  · rw [← some.inj hmalloc]
    exact hsame
  · rw [← some.inj hmalloc]
    exact hsame
  · split at hmalloc
    · simp at hmalloc
    · rw [← some.inj hmalloc]
      exact hsame
    · next ptr hfound =>
        rcases searchFree_sound hinv.blocks hinv.lfree_mem hfound with ⟨hx, hfree, hfit⟩
        split at hmalloc
        · simp at hmalloc
        · next hmove =>
            rw [← some.inj hmalloc]
            intro b hb hkept i hlow hhigh
            rw [moveLfree_memory hmove]
            exact takeBlock_keepsData hinv.blocks hx hfree hfit b hb hkept i hlow hhigh

theorem rtFree_keepsData (hinv : HeapInv a h bs) (hx : x ∈ usedBlocks h bs) :
    KeepsData a h bs (rtFree a h (dataPtr a h x)) (fun _ => True) := by
  have hmem := (mem_usedBlocks.mp hx).1
  have hplug := plugHoles_writes (hinv.blocks.markFree hmem) hmem
  rw [headers, (markFree_static h x).2.1] at hplug
  have hwrites : HeaderWrites (headers h bs) h (markFree h x) :=
    .markFree (mem_append_left _ hmem)
  rw [rtFree_dataPtr hinv hx]
  intro b hb _ i hlow hhigh
  exact hinv.blocks.byte_eq_of_writes (hwrites.trans hplug) (mem_usedBlocks.mp hb).1 hlow hhigh

theorem splitBlock_keepsData (hinv : HeapInv a h bs) (hx : x ∈ usedBlocks h bs)
    (hdvd : a.bytes ∣ newsize) (hsize : x + sizeofStructMem a + size = (h.header x).next)
    (hroom : newsize + sizeofStructMem a ≤ size) :
    KeepsData a h bs (splitBlock a h x size newsize) (fun b => b ≠ x) ∧
      ∀ i, x + sizeofStructMem a ≤ i → i < x + sizeofStructMem a + newsize →
        (splitBlock a h x size newsize).memory i = h.memory i := by
  have htwelve := twelve_le_sizeofStructMem a
  have hblocks := hinv.blocks
  have hmem := (mem_usedBlocks.mp hx).1
  have hxh : x ∈ headers h bs := mem_append_left _ hmem
  rcases append_of_mem hmem with ⟨before, after, hbs⟩
  have heq := splitBlock_eq hblocks hmem hsize hroom
  generalize hn : x + sizeofStructMem a + newsize = n at heq ⊢
  have hdvdn : a.bytes ∣ n := by
    rw [← hn]
    apply Nat.dvd_add (Nat.dvd_add _ (dvd_sizeofStructMem a)) hdvd
    exact hblocks.aligned x hxh
  rcases hblocks.cutBlock (size - newsize) hbs (by lia : _ ≤ n) (by lia) hdvdn with ⟨hcut, -⟩
  have hsub : headers h bs ⊆ insert n (headers h bs) := Set.subset_insert _ _
  have hwrites : HeaderWrites (insert n (headers h bs)) h (cutBlock a h x n (size - newsize)) :=
    .cutBlock (hsub hxh) (Set.mem_insert _ _) (hsub (hblocks.next_mem hxh)) (by lia)
      (by lia) (hblocks.next_lt hmem).2
  have hplug := (plugHoles_writes (x := n) hcut (by simp)).mono
    (show _ ⊆ insert n (headers h bs) by
      intro b hb
      rw [headers, (cutBlock_static a h x n (size - newsize)).2.1] at hb
      rw [headers, hbs]
      simp only [append_assoc, cons_append, mem_append, mem_cons,
        Set.mem_insert_iff, Set.mem_ofPred_eq] at hb ⊢
      rcases hb with hbefore | hx' | hnew | hafter
      · exact .inr (.inl hbefore)
      · exact .inr (.inr (.inl hx'))
      · exact .inl hnew
      · exact .inr (.inr (.inr hafter)))
  rw [heq]
  constructor
  · exact hblocks.keepsData_of_writes hmem (by lia) (by lia) (hwrites.trans hplug)
  · intro i hlow hhigh
    apply (hwrites.trans hplug)
    intro b hb
    rcases Set.mem_insert_iff.mp hb with hb | hb
    · lia
    · have hapart := hblocks.apart_of_inside hmem hb hlow
      lia

theorem copyData_memory (a : AlignSize) (h : Heap) (x y count i : ℕ) :
    (copyData a h x y count).memory i =
      if y + sizeofStructMem a ≤ i ∧ i < y + sizeofStructMem a + count then
        h.memory (x + sizeofStructMem a + (i - (y + sizeofStructMem a)))
      else h.memory i :=
  rfl

theorem Allocates.moved_bytes {h₁ : Heap} {bs₁ : List ℕ} {count : ℕ}
    (halloc : Allocates a h bs h₁ bs₁ y size) (hinv : HeapInv a h bs)
    (hkeeps : KeepsData a h bs h₁ (fun _ => True)) (hx : x ∈ usedBlocks h bs)
    (hcount : count ≤ size) (hlength : count ≤ dataLength a h x) :
    KeepsData a h bs (moveData a h h₁ x y count) (fun b => b ≠ x) ∧
      ∀ i < count, (moveData a h h₁ x y count).memory (y + sizeofStructMem a + i) =
        h.memory (x + sizeofStructMem a + i) := by
  have hcopied : Allocates a h bs (copyData a h₁ x y count) bs₁ y size := halloc.copied hcount
  have hmemory := copyData_memory a h₁ x y count
  have hptr : dataPtr a h x = dataPtr a (copyData a h₁ x y count) x := by
    rw [dataPtr, dataPtr, hcopied.updates.heapPtr_eq]
  unfold moveData
  rw [hptr]
  generalize copyData a h₁ x y count = h₂ at *
  have hold : ∀ b ∈ usedBlocks h bs, b ∈ usedBlocks h₂ bs₁ :=
    fun b hb => (hcopied.updates.used_iff b).mpr (.inr hb)
  have hfreed := rtFree_keepsData hcopied.updates.inv (hold x hx)
  have hroom := hcopied.room
  constructor
  · intro b hb _ i hlow hhigh
    have hnext := hcopied.updates.next_eq b hb trivial
    have hby : b ≠ y := fun heq => hcopied.fresh (heq ▸ hb)
    have hapart := hcopied.updates.inv.blocks.data_apart (mem_usedBlocks.mp (hold b hb)).1
      (mem_usedBlocks.mp hcopied.mem_used).1 hby
    rw [hfreed b (hold b hb) trivial i hlow (by lia), hmemory, if_neg (by lia)]
    exact hkeeps b hb trivial i hlow hhigh
  · intro i hi
    have hdata := hinv.dataLength_eq hx
    have hoffset : x + sizeofStructMem a + (y + sizeofStructMem a + i -
        (y + sizeofStructMem a)) = x + sizeofStructMem a + i := by lia
    rw [hfreed y hcopied.mem_used trivial _ (by lia) (by lia), hmemory, if_pos (by lia), hoffset]
    exact hkeeps x hx trivial _ (by lia) (by lia)

/-- A block moved from `x` to `y` with its bytes, the others kept. -/
structure Carries (a : AlignSize) (h : Heap) (bs : List ℕ) (x newsize : ℕ) (h' : Heap)
    (bs' : List ℕ) (y : ℕ) : Prop where
  updates : Updates a h bs h' bs' (fun b => b = y ∨ (b ∈ usedBlocks h bs ∧ b ≠ x)) (fun b => b ≠ x)
  target : y = x ∨ y ∉ usedBlocks h bs
  room : rtAlign a newsize ≤ dataLength a h' y
  copied : ∀ i < min (dataLength a h x) (rtAlign a newsize),
    h'.memory (y + sizeofStructMem a + i) = h.memory (x + sizeofStructMem a + i)
  kept : KeepsData a h bs h' (fun b => b ≠ x)

theorem Updates.of_iff {bs' : List ℕ} {isUsed isUsed' isKept : ℕ → Prop}
    (hupdates : Updates a h bs h' bs' isUsed isKept) (hiff : ∀ b, isUsed b ↔ isUsed' b) :
    Updates a h bs h' bs' isUsed' isKept := by
  constructor
  · exact hupdates.inv
  · exact hupdates.heapPtr_eq
  · exact hupdates.heapEnd_eq
  · exact hupdates.memSizeAligned_eq
  · intro b
    rw [hupdates.used_iff, hiff]
  · exact hupdates.next_eq

theorem rtRealloc_carries {result : Heap × ℕ} (hinv : HeapInv a h bs) (hx : x ∈ usedBlocks h bs)
    (hrealloc : rtRealloc a h (dataPtr a h x) newsize = some result) : result = (h, rtNull) ∨
      ∃ bs' y, result.2 = dataPtr a h y ∧ Carries a h bs x newsize result.1 bs' y := by
  have hself : ∀ b, b ∈ usedBlocks h bs ↔ b = x ∨ (b ∈ usedBlocks h bs ∧ b ≠ x) := by
    intro b
    by_cases hbx : b = x
    · simp [hbx, hx]
    · simp [hbx]
  have hlength := (hinv.dataLength_eq hx).1
  cases rtRealloc_path hinv hx hrealloc with
  | tooLarge | refused => exact .inl rfl
  | equal hequal =>
    right
    refine ⟨bs, x, rfl, ?_⟩
    constructor
    · exact ⟨hinv, rfl, rfl, rfl, hself, fun _ _ _ => rfl⟩
    · exact .inl rfl
    · exact hequal.ge
    · intro _ _
      rfl
    · intro _ _ _ _ _ _
      rfl
  | cut _ hroom =>
    have hdvd : a.bytes ∣ rtAlign a newsize := dvd_rtAlign a
    rcases splitBlock_spec hinv hx hdvd hlength (by lia) with ⟨bs', hupdates, hnext, -⟩
    rcases splitBlock_keepsData hinv hx hdvd hlength (by lia) with ⟨hkeeps, hfront⟩
    right
    refine ⟨bs', x, rfl, ?_⟩
    constructor
    · exact hupdates.of_iff hself
    · exact .inl rfl
    · rw [dataLength, hnext]
      lia
    · intro i hi
      exact hfront _ (by lia) (by lia)
    · exact hkeeps
  | @moved h₁ bs₁ y hmalloc halloc =>
    have hyx : y ≠ x := fun heq => halloc.fresh (heq ▸ hx)
    rcases halloc.moved hx (min_le_right (dataLength a h x) _) with ⟨bs', hupdates, hroom, -⟩
    rcases halloc.moved_bytes hinv (rtMalloc_keepsData hinv hmalloc) hx
      (min_le_right (dataLength a h x) _) (min_le_left _ _) with ⟨hkeeps, hcopied⟩
    right
    refine ⟨bs', y, rfl, ?_⟩
    constructor
    · apply hupdates.of_iff
      intro b
      by_cases hby : b = y
      · simp [hby, hyx]
      · simp [hby]
    · exact .inr halloc.fresh
    · rw [dataLength]
      lia
    · exact hcopied
    · exact hkeeps

def byteAt (h : Heap) (addr : ℕ) : UInt8 := h.memory (addr - h.heapPtr)

def poke (h : Heap) (addr : ℕ) (value : UInt8) : Heap :=
  { h with memory := Function.update h.memory (addr - h.heapPtr) value }

inductive Access where
  | call (call : Call)
  | write (addr : ℕ) (value : UInt8)

def accessSystem (a : AlignSize) (minData : ℕ) : TransitionSystem HeapState Access where
  init := (heapSystem a minData).init
  step s
    | .call call, s' => (heapSystem a minData).step s call s'
    | .write addr value, s' =>
      (∃ p ∈ s.live, p ≤ addr ∧ addr < dataEnd a s.heap p) ∧ s' = ⟨poke s.heap addr value, s.live⟩

def FillFits (a : AlignSize) (s : HeapState) : Access → Prop
  | .call call => call.FillFits a s.heap
  | .write _ _ => True

theorem Owned.poke {p addr : ℕ} (howned : Owned a s bs) (hp : p ∈ s.live)
    (hlow : p ≤ addr) (hhigh : addr < dataEnd a s.heap p) (value : UInt8) :
    Owned a ⟨SmallMem.poke s.heap addr value, s.live⟩ bs := by
  rcases howned.exists_block hp with ⟨b, hb, hptr, hend⟩
  rw [hptr, dataPtr] at hlow
  rw [hend] at hhigh
  have hwrite : ∀ other, other + 12 ≤ 4294967296 →
      other + 12 ≤ addr - s.heap.heapPtr ∨ addr - s.heap.heapPtr + 1 ≤ other →
      Memory.AgreeOn s.heap.memory
        (Function.update s.heap.memory (addr - s.heap.heapPtr) value) other 12 := by
    intro other _ hapart i hi hi'
    exact Function.update_of_ne (by lia) _ _
  rcases howned.inv.write hb (by lia) (by lia) hwrite with ⟨hinv, hheader⟩
  have hused : usedBlocks (SmallMem.poke s.heap addr value) bs = usedBlocks s.heap bs := by
    apply usedBlocks_congr
    intro c hc
    exact congrArg HeapMem.used (hheader c hc)
  constructor
  · exact hinv
  · exact howned.live_nodup
  · intro q
    rw [hused]
    exact howned.live_iff q

theorem owned_of_accesses {minData : ℕ}
    (hreach : (accessSystem a minData).Reachable (FillFits a) s) :
    (∃ bs, Owned a s bs) ∧ minData ≤ s.heap.memSizeAligned := by
  apply hreach.invariant (P := fun s => (∃ bs, Owned a s bs) ∧ minData ≤ s.heap.memSizeAligned)
  · intro s hinit
    rcases Owned.of_init hinit with ⟨howned, -, hsize⟩
    exact ⟨⟨[0], howned⟩, hsize⟩
  · intro s action s' hinv hfits hstep
    rcases hinv with ⟨⟨bs, howned⟩, hsize⟩
    cases action with
    | call call =>
      rcases howned.execute hstep.1 hfits hstep.2 with ⟨⟨bs', howned', -⟩, hsame⟩
      exact ⟨⟨bs', howned'⟩, hsame ▸ hsize⟩
    | write addr value =>
      rcases hstep with ⟨⟨p, hp, hlow, hhigh⟩, rfl⟩
      exact ⟨⟨bs, howned.poke hp hlow hhigh value⟩, hsize⟩

theorem reachable_accesses {minData : ℕ}
    (hreach : (heapSystem a minData).Reachable (fun s call => call.FillFits a s.heap) s) :
    (accessSystem a minData).Reachable (FillFits a) s := by
  induction hreach with
  | start hinit => exact .start hinit
  | @next s s' call _ hfits hstep ih =>
    have hguard : FillFits a s (.call call) := hfits
    exact .next ih hguard hstep

/-- `rt_realloc(p, newsize)` has returned `q` and left the heap `h'`: a failure changes
nothing, a success preserves the front of the data, and the other blocks keep their
data either way. -/
structure ReallocOutcome (a : AlignSize) (s : HeapState) (p newsize : ℕ) (h' : Heap)
    (q : ℕ) : Prop where
  unchanged_of_null : q = rtNull → h' = s.heap ∧ p ∈ regrant p q s.live
  copied : q ≠ rtNull → ∀ i < min (dataEnd a s.heap p - p) newsize,
    byteAt h' (q + i) = byteAt s.heap (p + i)
  released : q ≠ rtNull → q ≠ p → p ∉ regrant p q s.live
  intact : ∃ bs', ChainIntact a ⟨h', regrant p q s.live⟩ bs' ∧
    ∀ r, r ∈ regrant p q s.live ↔ ∃ b ∈ usedBlocks h' bs', r = dataPtr a h' b
  others : ∀ r ∈ s.live, r ≠ p → r ∈ regrant p q s.live ∧ dataEnd a h' r = dataEnd a s.heap r ∧
      ∀ addr, r ≤ addr → addr < dataEnd a s.heap r → byteAt h' addr = byteAt s.heap addr

theorem Owned.reallocOutcome {p : ℕ} {result : Heap × ℕ} (howned : Owned a s bs) (hp : p ∈ s.live)
    (hround : newsize + a.bytes ≤ 4294967296)
    (hrealloc : rtRealloc a s.heap p newsize = some result) :
    ReallocOutcome a s p newsize result.1 result.2 := by
  rcases howned.execute_realloc (.inr hp) hrealloc with ⟨⟨bs', howned', -⟩, -⟩
  have hintact : ∃ bs', ChainIntact a ⟨result.1, regrant p result.2 s.live⟩ bs' ∧
      ∀ r, r ∈ regrant p result.2 s.live ↔
        ∃ b ∈ usedBlocks result.1 bs', r = dataPtr a result.1 b :=
    ⟨bs', howned'.chainIntact, howned'.live_iff⟩
  rcases (howned.live_iff p).mp hp with ⟨x, hx, hpx⟩
  rw [hpx] at hrealloc
  rcases rtRealloc_carries howned.inv hx hrealloc with hfail | ⟨bs₂, y, hq, hcarries⟩
  · rw [hfail] at hintact ⊢
    have hlive : regrant p rtNull s.live = s.live := if_pos rfl
    constructor
    · intro _
      rw [hlive]
      exact ⟨rfl, hp⟩
    · intro hne
      contradiction
    · intro hne
      contradiction
    · exact hintact
    · intro r hr _
      rw [hlive]
      exact ⟨hr, rfl, fun _ _ _ => rfl⟩
  · have hne : result.2 ≠ rtNull := by
      rw [hq]
      exact dataPtr_ne_null a s.heap y
    have hptr := hcarries.updates.heapPtr_eq
    have hlive : regrant p result.2 s.live = result.2 :: s.live.erase p := if_neg hne
    have hround' : newsize ≤ rtAlign a newsize := le_rtAlign a hround
    constructor
    · intro hnull
      contradiction
    · intro _ i hi
      have hblock : dataEnd a s.heap p - p = dataLength a s.heap x := by
        rw [hpx, dataEnd, blockOf_dataPtr, dataPtr, dataLength]
        lia
      have htarget : result.2 + i - result.1.heapPtr = y + sizeofStructMem a + i := by
        rw [hq, hptr, dataPtr]
        lia
      have hsource : p + i - s.heap.heapPtr = x + sizeofStructMem a + i := by
        rw [hpx, dataPtr]
        lia
      rw [byteAt, byteAt, htarget, hsource]
      exact hcarries.copied i (by lia)
    · intro _ hqp
      rw [hlive, mem_cons, howned.live_nodup.mem_erase_iff]
      intro hmem
      rcases hmem with heq | ⟨hself, -⟩
      · exact hqp heq.symm
      · exact hself rfl
    · exact hintact
    · intro r hr hrp
      rcases (howned.live_iff r).mp hr with ⟨b, hb, hrb⟩
      have hbx : b ≠ x := by
        intro heq
        exact hrp (by rw [hrb, hpx, heq])
      have hsame : dataPtr a s.heap b = dataPtr a result.1 b := by
        rw [dataPtr, dataPtr, hptr]
      have hblock : blockOf a result.1 r = b := by
        rw [hrb, hsame, blockOf_dataPtr]
      have hend : dataEnd a s.heap r = s.heap.heapPtr + (s.heap.header b).next := by
        rw [hrb, dataEnd, blockOf_dataPtr]
      refine ⟨?_, ?_, ?_⟩
      · rw [hlive, mem_cons, howned.live_nodup.mem_erase_iff]
        exact .inr ⟨hrp, hr⟩
      · rw [hend, dataEnd, hblock, hptr, hcarries.updates.next_eq b hb hbx]
      · intro addr hlow hhigh
        rw [hrb, dataPtr] at hlow
        rw [hend] at hhigh
        rw [byteAt, byteAt, hptr]
        exact hcarries.kept b hb hbx _ (by lia) (by lia)

/-- In every reachable heap `rt_realloc` returns, fails cleanly or preserves the data. -/
theorem realloc_preserves_data (a : AlignSize) {s : HeapState} {p : ℕ}
    (hreach : (accessSystem a 0).Reachable (FillFits a) s) (hp : p ∈ s.live) (newsize : UInt32)
    (hround : newsize.toNat + a.bytes ≤ 4294967296) : (minSizeAligned a ≤ s.heap.memSizeAligned →
      ∃ result, rtRealloc a s.heap p newsize.toNat = some result) ∧
    ∀ result, rtRealloc a s.heap p newsize.toNat = some result →
      ReallocOutcome a s p newsize.toNat result.1 result.2 := by
  rcases owned_of_accesses hreach with ⟨⟨bs, howned⟩, -⟩
  constructor
  · intro hsize
    rcases howned.execute_total hsize (.realloc p newsize) with ⟨s', hs'⟩
    rcases map_eq_some_iff.mp hs' with ⟨result, hresult, -⟩
    exact ⟨result, hresult⟩
  · intro result hresult
    exact howned.reallocOutcome hp hround hresult

def sampleAccess (s : HeapState) : Access → Option HeapState
  | .call call =>
    if call.Legal s.live ∧ call.FillFits wordAlign s.heap then
      execute wordAlign s call
    else none
  | .write addr value =>
    if addr ∈ s.live ∧ addr < dataEnd wordAlign s.heap addr then
      some ⟨poke s.heap addr value, s.live⟩
    else none

theorem sampleAccess_sound {action : Access} (hstep : sampleAccess s action = some s') :
    FillFits wordAlign s action ∧ (accessSystem wordAlign 0).step s action s' := by
  cases action with
  | call call =>
    simp only [sampleAccess] at hstep
    split_ifs at hstep with hguard
    exact ⟨hguard.2, hguard.1, hstep⟩
  | write addr value =>
    simp only [sampleAccess] at hstep
    split_ifs at hstep with hguard
    exact ⟨trivial, ⟨addr, hguard.1, le_rfl, hguard.2⟩, (some.inj hstep).symm⟩

theorem realloc_preserves_data_sample :
    ∃ s, (accessSystem wordAlign 0).Reachable (FillFits wordAlign) s ∧
      s.live = [0x2000007c, 0x2000000c] ∧ byteAt s.heap 0x2000000c = 7 ∧
      ∃ result, rtRealloc wordAlign s.heap 0x2000000c 200 = some result ∧
        ReallocOutcome wordAlign s 0x2000000c 200 result.1 result.2 := by
  have hrun : ((rtSystemHeapInit wordAlign (fun _ => 0) 0x20000000 0x20000400).bind
      fun h => ([.call (.malloc 100), .call (.malloc 20),
        .write 0x2000000c 7] : List Access).foldlM sampleAccess ⟨h, []⟩).map
      (fun s => (s.live, byteAt s.heap 0x2000000c, s.heap.memSizeAligned)) =
        some ([0x2000007c, 0x2000000c], 7, 1000) := by decide +kernel
  rcases map_eq_some_iff.mp hrun with ⟨s, hs, hview⟩
  simp only [Prod.mk.injEq] at hview
  rcases hview with ⟨hlive, hbyte, hsize⟩
  rcases bind_eq_some_iff.mp hs with ⟨h, hinit, hfold⟩
  have hstart : (accessSystem wordAlign 0).init ⟨h, []⟩ :=
    ⟨fun _ => 0, 0x20000000, 0x20000400, hinit, Nat.zero_le _, rfl⟩
  have hreach : (accessSystem wordAlign 0).Reachable (FillFits wordAlign) s :=
    TransitionSystem.Reachable.foldlM (fun _ _ _ => sampleAccess_sound) (.start hstart) hfold
  have hp : 0x2000000c ∈ s.live := by
    rw [hlive]
    decide
  rcases realloc_preserves_data wordAlign hreach hp 200 (by decide) with ⟨htotal, houtcome⟩
  rcases htotal (by rw [hsize]; exact minSizeAligned_wordAlign_le) with ⟨result, hresult⟩
  exact ⟨s, hreach, hlive, hbyte, result, hresult, houtcome result hresult⟩

end RtThread.SmallMem
