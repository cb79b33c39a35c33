import RtThread.SmallMemInvariant

/-!
# The operations of the small-memory heap

One specification for each operation of `mem.c`: what it does to the set of
used blocks, and that it keeps the invariant.  `Updates` is the common form of
these statements.
-/

namespace RtThread.SmallMem

open List Option Word

/-- The heap `h'` lies in the same memory area as `h`, is well formed, and its
used blocks are those which satisfy `isUsed`; the blocks which stay used and
satisfy `isKept` keep their size. -/
structure Updates (a : AlignSize) (h : Heap) (bs : List ℕ) (h' : Heap) (bs' : List ℕ)
    (isUsed isKept : ℕ → Prop) : Prop where
  inv : HeapInv a h' bs'
  heapPtr_eq : h'.heapPtr = h.heapPtr
  heapEnd_eq : h'.heapEnd = h.heapEnd
  memSizeAligned_eq : h'.memSizeAligned = h.memSizeAligned
  used_iff : ∀ b, b ∈ usedBlocks h' bs' ↔ isUsed b
  next_eq : ∀ b ∈ usedBlocks h bs, isKept b → (h'.header b).next = (h.header b).next

variable {a : AlignSize} {h h' : Heap} {bs before after : List ℕ} {x size : ℕ}

theorem usedSum_mark (hbs : bs = before ++ x :: after) (hnodup : bs.Nodup)
    (hframe : ∀ b ∈ bs, b ≠ x → (h'.header b).used = (h.header b).used ∧
        (h'.header b).next = (h.header b).next) (hfree : (h.header x).used = 0)
    (hused : (h'.header x).used ≠ 0) : usedSum h' bs = usedSum h bs + ((h'.header x).next - x) := by
  rw [hbs, nodup_append, nodup_cons] at hnodup
  have hleft : ∀ b ∈ before, (h'.header b).used = (h.header b).used ∧
      (h'.header b).next = (h.header b).next := by
    intro b hb
    exact hframe b (by simp [hbs, hb]) (hnodup.2.2 b hb x mem_cons_self)
  have hright : ∀ b ∈ after, (h'.header b).used = (h.header b).used ∧
      (h'.header b).next = (h.header b).next := by
    intro b hb
    apply hframe b (by simp [hbs, hb])
    intro heq
    exact hnodup.2.1.1 (heq ▸ hb)
  rw [hbs, usedSum_append, usedSum_append, usedSum_cons_used hused, usedSum_cons_free hfree,
    usedSum_congr (fun b hb => (hleft b hb).1) (fun b hb => (hleft b hb).2),
    usedSum_congr (fun b hb => (hright b hb).1) (fun b hb => (hright b hb).2)]
  omega

theorem accountUsed_header (h : Heap) (n b : ℕ) : (accountUsed h n).header b = h.header b := by
  unfold accountUsed
  simp only
  split_ifs <;> rfl

theorem accountUsed_static (h : Heap) (n : ℕ) : (accountUsed h n).heapPtr = h.heapPtr ∧
      (accountUsed h n).heapEnd = h.heapEnd ∧ (accountUsed h n).memSizeAligned = h.memSizeAligned ∧
      (accountUsed h n).lfree = h.lfree := by
  unfold accountUsed
  simp only
  split_ifs <;> exact ⟨rfl, rfl, rfl, rfl⟩

theorem accountUsed_usedMem (h : Heap) (n : ℕ) : (accountUsed h n).usedMem = add32 h.usedMem n ∧
      (accountUsed h n).usedMem ≤ (accountUsed h n).maxMem := by
  unfold accountUsed
  simp only
  split_ifs with hmax
  · exact ⟨rfl, le_rfl⟩
  · exact ⟨rfl, by simp only at hmax ⊢; omega⟩

def markUsed (h : Heap) (x : ℕ) : Heap :=
  (accountUsed (h.setUsed x 1) (sub32 (h.header x).next x)).setMagic x heapMagic

theorem markUsed_static (h : Heap) (x : ℕ) : (markUsed h x).heapPtr = h.heapPtr ∧
      (markUsed h x).heapEnd = h.heapEnd ∧ (markUsed h x).memSizeAligned = h.memSizeAligned ∧
      (markUsed h x).lfree = h.lfree :=
  accountUsed_static (h.setUsed x 1) _

theorem markUsed_header (h : Heap) (x : ℕ) :
    (markUsed h x).header x = { h.header x with magic := heapMagic, used := 1 } ∧
      ∀ b, (b + 12 ≤ x ∨ x + 12 ≤ b) → (markUsed h x).header b = h.header b := by
  constructor
  · unfold markUsed
    rw [Heap.header_setMagic _ (by decide), accountUsed_header, Heap.header_setUsed _ (by decide)]
  · intro b hb
    unfold markUsed
    rw [Heap.header_setMagic_of_apart _ (by omega), accountUsed_header,
      Heap.header_setUsed_of_apart _ (by omega)]

theorem Blocks.markUsed_fields (hblocks : Blocks a h bs) (hx : x ∈ bs) :
    ((markUsed h x).header x).used = 1 ∧ ∀ b ∈ bs ++ [h.heapEnd],
        ((markUsed h x).header b).next = (h.header b).next ∧
          ((markUsed h x).header b).prev = (h.header b).prev ∧
          (b ≠ x → ((markUsed h x).header b).used = (h.header b).used) := by
  have hsize := twelve_le_sizeofStructMem a
  rcases markUsed_header h x with ⟨hhead, hframe⟩
  constructor
  · rw [hhead]
  · intro b hb
    by_cases hbx : b = x
    · rw [hbx, hhead]
      exact ⟨rfl, rfl, fun hne => absurd rfl hne⟩
    · have hapart := hblocks.apart hb (mem_append_left _ hx) hbx
      rw [hframe b (by omega)]
      exact ⟨rfl, rfl, fun _ => rfl⟩

theorem Blocks.markUsed (hblocks : Blocks a h bs) (hx : x ∈ bs) : Blocks a (markUsed h x) bs := by
  rcases hblocks.markUsed_fields hx with ⟨-, hframe⟩
  rcases markUsed_static h x with ⟨hptr, hend, hsize, -⟩
  apply hblocks.of_links_eq ⟨hptr, hend, hsize⟩
  · intro b hb
    exact ⟨(hframe b hb).1, (hframe b hb).2.1⟩
  · rw [(hframe h.heapEnd (by simp)).2.2]
    · exact hblocks.used_end
    · intro heq
      exact hblocks.end_not_mem (heq ▸ hx)

theorem Blocks.markUsed_usedMem (hblocks : Blocks a h bs) (hx : x ∈ bs)
    (hfree : (h.header x).used = 0) (husedMem : h.usedMem = usedSum h bs) :
    (SmallMem.markUsed h x).usedMem = usedSum (SmallMem.markUsed h x) bs ∧
      (SmallMem.markUsed h x).usedMem ≤ (SmallMem.markUsed h x).maxMem := by
  rcases append_of_mem hx with ⟨before, after, hbs⟩
  rcases hblocks.markUsed_fields hx with ⟨hused, hframe⟩
  rcases hblocks.around hbs with ⟨-, -, -, hgap, -, hle⟩
  have hfits := hblocks.fits
  have hnext := (hframe x (mem_append_left _ hx)).1
  have hsum : usedSum (SmallMem.markUsed h x) bs = usedSum h bs + ((h.header x).next - x) := by
    rw [← hnext]
    apply usedSum_mark hbs hblocks.nodup _ hfree (by lia)
    intro b hb hne
    have hkeep := hframe b (mem_append_left _ hb)
    exact ⟨hkeep.2.2 hne, hkeep.1⟩
  have hbound := (hblocks.markUsed hx).usedSum_le
  rw [hsum, (markUsed_static h x).2.1] at hbound
  rcases accountUsed_usedMem (h.setUsed x 1) (sub32 (h.header x).next x) with ⟨heq, hmax⟩
  constructor
  · rw [hsum]
    change (accountUsed (h.setUsed x 1) (sub32 (h.header x).next x)).usedMem = _
    rw [heq, sub32_eq_of_le (by lia) (by lia)]
    change add32 h.usedMem _ = _
    rw [husedMem, add32_eq_of_lt (by lia)]
  · exact hmax

/-- The heap `h'` arises from `h` by giving the free block `x` to a caller who
needs `size` bytes; `lfree` has not been moved yet. -/
structure Takes (a : AlignSize) (h : Heap) (bs : List ℕ) (h' : Heap) (bs' : List ℕ)
    (x size : ℕ) : Prop where
  blocks : Blocks a h' bs'
  noFreePair : NoFreePair h' bs'
  heapPtr_eq : h'.heapPtr = h.heapPtr
  heapEnd_eq : h'.heapEnd = h.heapEnd
  memSizeAligned_eq : h'.memSizeAligned = h.memSizeAligned
  lfree_eq : h'.lfree = h.lfree
  usedMem_eq : h'.usedMem = usedSum h' bs'
  usedMem_le : h'.usedMem ≤ h'.maxMem
  used_iff : ∀ b, b ∈ usedBlocks h' bs' ↔ b = x ∨ b ∈ usedBlocks h bs
  next_eq : ∀ b ∈ usedBlocks h bs, (h'.header b).next = (h.header b).next
  room : x + sizeofStructMem a + size ≤ (h'.header x).next
  free_of_free : ∀ b ∈ bs, (h.header b).used = 0 → b ≠ x → b ∈ bs' ∧ (h'.header b).used = 0
  free_above : ∀ b ∈ bs', (h'.header b).used = 0 → (b ∈ bs ∧ (h.header b).used = 0) ∨ x < b

theorem noFreePair_of_used {l : List ℕ} (hleft : NoFreePair h before)
    (hused : (h.header x).used ≠ 0) (hright : NoFreePair h l) :
    NoFreePair h (before ++ x :: l) := by
  apply isChain_append.mpr
  constructor
  · exact hleft
  constructor
  · cases l with
    | nil => exact .singleton x
    | cons y l => exact isChain_cons_cons.mpr ⟨.inl hused, hright⟩
  · intro y _ z hz
    simp only [head?_cons, mem_def, some.injEq] at hz
    exact .inr (hz ▸ hused)

theorem NoFreePair.left (hpair : NoFreePair h (before ++ x :: after)) :
    NoFreePair h before :=
  (isChain_append.mp hpair).1

theorem NoFreePair.right (hpair : NoFreePair h (before ++ x :: after)) :
    NoFreePair h after :=
  ((isChain_append.mp hpair).2.1).tail

theorem takes_markUsed {h₁ : Heap} {before₁ after₁ : List ℕ}
    (hcut : Blocks a h₁ (before₁ ++ x :: after₁))
    (hstatic : h₁.heapPtr = h.heapPtr ∧ h₁.heapEnd = h.heapEnd ∧
      h₁.memSizeAligned = h.memSizeAligned ∧ h₁.lfree = h.lfree)
    (husedMem : h₁.usedMem = usedSum h₁ (before₁ ++ x :: after₁))
    (husedBlocks : usedBlocks h₁ (before₁ ++ x :: after₁) = usedBlocks h bs)
    (hnext : ∀ b ∈ usedBlocks h bs, (h₁.header b).next = (h.header b).next)
    (hfree : (h₁.header x).used = 0) (hfit : x + sizeofStructMem a + size ≤ (h₁.header x).next)
    (hleft : NoFreePair h₁ before₁) (hright : NoFreePair h₁ after₁)
    (hold : ∀ b ∈ bs, b ∈ before₁ ++ x :: after₁ ∧ (h₁.header b).used = (h.header b).used)
    (hnew : ∀ b ∈ before₁ ++ x :: after₁, b ∈ bs ∨ x < b) :
    Takes a h bs (markUsed h₁ x) (before₁ ++ x :: after₁) x size := by
  have hx : x ∈ before₁ ++ x :: after₁ := by simp
  rcases hcut.markUsed_fields hx with ⟨hused, hframe⟩
  rcases markUsed_static h₁ x with ⟨hptr, hend, hmemSize, hlfree⟩
  rcases hcut.markUsed_usedMem hx hfree husedMem with ⟨hsum, hmax⟩
  have hflag : ∀ b ∈ before₁ ++ x :: after₁, b ≠ x →
      ((markUsed h₁ x).header b).used = (h₁.header b).used :=
    fun b hb => (hframe b (mem_append_left _ hb)).2.2
  have hnodup := hcut.nodup
  rw [nodup_append, nodup_cons] at hnodup
  have husedIff : ∀ b, b ≠ x → (b ∈ usedBlocks (markUsed h₁ x) (before₁ ++ x :: after₁) ↔
        b ∈ usedBlocks h bs) := by
    intro b hbx
    rw [← husedBlocks, mem_usedBlocks, mem_usedBlocks]
    constructor
    · rintro ⟨hb, hflagb⟩
      exact ⟨hb, by rwa [hflag b hb hbx] at hflagb⟩
    · rintro ⟨hb, hflagb⟩
      exact ⟨hb, by rwa [hflag b hb hbx]⟩
  constructor
  · exact hcut.markUsed hx
  · apply noFreePair_of_used
    · apply hleft.congr
      intro b hb
      exact hflag b (by simp [hb]) (hnodup.2.2 b hb x mem_cons_self)
    · omega
    · apply hright.congr
      intro b hb
      apply hflag b (by simp [hb])
      intro heq
      exact hnodup.2.1.1 (heq ▸ hb)
  · exact hptr.trans hstatic.1
  · exact hend.trans hstatic.2.1
  · exact hmemSize.trans hstatic.2.2.1
  · exact hlfree.trans hstatic.2.2.2
  · exact hsum
  · exact hmax
  · intro b
    by_cases hbx : b = x
    · rw [hbx, mem_usedBlocks, hused]
      simp
    · rw [husedIff b hbx]
      simp [hbx]
  · intro b hb
    rw [← hnext b hb]
    rw [← husedBlocks, mem_usedBlocks] at hb
    exact (hframe b (mem_append_left _ hb.1)).1
  · rw [(hframe x (mem_append_left _ hx)).1]
    exact hfit
  · intro b hb hbfree hbx
    rcases hold b hb with ⟨hmem, hsame⟩
    exact ⟨hmem, by rw [hflag b hmem hbx, hsame, hbfree]⟩
  · intro b hb hbfree
    have hbx : b ≠ x := by
      intro heq
      rw [heq, hused] at hbfree
      cases hbfree
    rw [hflag b hb hbx] at hbfree
    rcases hnew b hb with hmem | habove
    · exact .inl ⟨hmem, (hold b hmem).2 ▸ hbfree⟩
    · exact .inr habove

theorem Blocks.insertBlock_free {n : ℕ} (hblocks : Blocks a h bs) (hbs : bs = before ++ x :: after)
    (hfree : (h.header x).used = 0) (hxn : x + sizeofStructMem a ≤ n)
    (hnz : n + sizeofStructMem a ≤ (h.header x).next) :
    usedBlocks (SmallMem.insertBlock a h x n) (before ++ x :: n :: after) = usedBlocks h bs ∧
      usedSum (SmallMem.insertBlock a h x n) (before ++ x :: n :: after) =
        usedSum h bs := by
  rcases hblocks.insertBlock_fields hbs hxn hnz with ⟨-, hfreen, -, -, -, hframe⟩
  have hmem : ∀ b ∈ bs, b ∈ bs ++ [h.heapEnd] := fun b hb => mem_append_left _ hb
  have hflag : ∀ b ∈ bs, ((SmallMem.insertBlock a h x n).header b).used = (h.header b).used :=
    fun b hb => (hframe b (hmem b hb)).1
  have hfreex : ((SmallMem.insertBlock a h x n).header x).used = 0 :=
    (hflag x (by simp [hbs])).trans hfree
  have hleft : usedBlocks (SmallMem.insertBlock a h x n) before = usedBlocks h before :=
    usedBlocks_congr fun b hb => hflag b (by simp [hbs, hb])
  have hright : usedBlocks (SmallMem.insertBlock a h x n) after = usedBlocks h after :=
    usedBlocks_congr fun b hb => hflag b (by simp [hbs, hb])
  have hblocksEq : usedBlocks (SmallMem.insertBlock a h x n) (before ++ x :: n :: after) =
      usedBlocks h bs := by
    rw [hbs, usedBlocks_append, usedBlocks_append, usedBlocks_cons_free hfreex,
      usedBlocks_cons_free hfreen, usedBlocks_cons_free hfree, hleft, hright]
  refine ⟨hblocksEq, usedSum_eq_of_usedBlocks hblocksEq ?_⟩
  intro b hb
  rw [mem_usedBlocks] at hb
  apply (hframe b (hmem b hb.1)).2.1
  intro heq
  exact hb.2 (heq ▸ hfree)

theorem takes_whole (hinv : HeapInv a h bs) (hbs : bs = before ++ x :: after)
    (hfree : (h.header x).used = 0) (hfit : x + sizeofStructMem a + size ≤ (h.header x).next) :
    Takes a h bs (markUsed h x) bs x size := by
  have hpair := hinv.noFreePair
  rw [hbs] at hpair hinv ⊢
  apply takes_markUsed hinv.blocks
  · exact ⟨rfl, rfl, rfl, rfl⟩
  · exact hinv.usedMem_eq
  · rfl
  · intro b _
    rfl
  · exact hfree
  · exact hfit
  · exact hpair.left
  · exact hpair.right
  · intro b hb
    exact ⟨hb, rfl⟩
  · intro b hb
    exact .inl hb

theorem takes_front (hinv : HeapInv a h bs) (hbs : bs = before ++ x :: after)
    (hfree : (h.header x).used = 0) (hdvd : a.bytes ∣ size)
    (hfit : x + sizeofStructMem a + size + sizeofStructMem a ≤ (h.header x).next) :
    Takes a h bs (markUsed (insertBlock a h x (x + sizeofStructMem a + size)) x)
      (before ++ x :: (x + sizeofStructMem a + size) :: after) x size := by
  have hsize := twelve_le_sizeofStructMem a
  have hblocks := hinv.blocks
  have hx : x ∈ bs := by simp [hbs]
  have hxn : x + sizeofStructMem a ≤ x + sizeofStructMem a + size := by omega
  have hdvdn : a.bytes ∣ x + sizeofStructMem a + size := by
    apply Nat.dvd_add (Nat.dvd_add _ (dvd_sizeofStructMem a)) hdvd
    exact hblocks.aligned x (mem_append_left _ hx)
  rcases hblocks.insertBlock_fields hbs hxn hfit with ⟨hnextx, hfreen, -, -, -, hframe⟩
  rcases hblocks.insertBlock_free hbs hfree hxn hfit with ⟨husedBlocks, hsum⟩
  rcases insertBlock_static a h x (x + sizeofStructMem a + size)
    with ⟨hptr, hend, hmemSize, hlfree, husedMem, -⟩
  have hflag : ∀ b ∈ bs, ((insertBlock a h x (x + sizeofStructMem a + size)).header b).used =
        (h.header b).used :=
    fun b hb => (hframe b (mem_append_left _ hb)).1
  have hpair := hinv.noFreePair
  rw [hbs] at hpair
  apply takes_markUsed (hblocks.insertBlock hbs hxn hfit hdvdn)
  · exact ⟨hptr, hend, hmemSize, hlfree⟩
  · rw [husedMem, hsum, hinv.usedMem_eq]
  · exact husedBlocks
  · intro b hb
    rw [mem_usedBlocks] at hb
    apply (hframe b (mem_append_left _ hb.1)).2.1
    intro heq
    exact hb.2 (heq ▸ hfree)
  · exact (hflag x hx).trans hfree
  · rw [hnextx]
  · apply hpair.left.congr
    intro b hb
    exact hflag b (by simp [hbs, hb])
  · have hbehind : NoFreePair (insertBlock a h x (x + sizeofStructMem a + size)) after := by
      apply hpair.right.congr
      intro b hb
      exact hflag b (by simp [hbs, hb])
    cases after with
    | nil => exact .singleton _
    | cons z after =>
      apply isChain_cons_cons.mpr
      refine ⟨.inr ?_, hbehind⟩
      rw [hflag z (by simp [hbs])]
      exact (isChain_append_cons_cons.mp hpair).2.1.resolve_left (by simp [hfree])
  · intro b hb
    refine ⟨?_, hflag b hb⟩
    rw [hbs] at hb
    simp only [mem_append, mem_cons] at hb ⊢
    exact hb.imp_right (Or.imp_right .inr)
  · intro b hb
    rw [hbs]
    simp only [mem_append, mem_cons] at hb ⊢
    rcases hb with hb | hb | hb | hb
    · exact .inl (.inl hb)
    · exact .inl (.inr (.inl hb))
    · exact .inr (by omega)
    · exact .inl (.inr (.inr hb))

theorem takeBlock_cases (hblocks : Blocks a h bs) (hx : x ∈ bs)
    (hfit : x + sizeofStructMem a + size ≤ (h.header x).next) :
    takeBlock a h x size = markUsed h x ∨
      (x + sizeofStructMem a + size + sizeofStructMem a ≤ (h.header x).next ∧ takeBlock a h x size =
          markUsed (insertBlock a h x (x + sizeofStructMem a + size)) x) := by
  have hfits := hblocks.fits
  rcases append_of_mem hx with ⟨before, after, hbs⟩
  rcases hblocks.around hbs with ⟨-, -, -, -, -, hle⟩
  have hptr : add32 x (sizeofStructMem a) = x + sizeofStructMem a := add32_eq_of_lt (by lia)
  have hptr2 : add32 (x + sizeofStructMem a) size = x + sizeofStructMem a + size :=
    add32_eq_of_lt (by lia)
  have hdata : sub32 (h.header x).next (x + sizeofStructMem a) =
      (h.header x).next - (x + sizeofStructMem a) :=
    sub32_eq_of_le (by lia) (by lia)
  have htaken : add32 size (sizeofStructMem a) = size + sizeofStructMem a := add32_eq_of_lt (by lia)
  by_cases hroom : sub32 (h.header x).next (add32 x (sizeofStructMem a)) ≥
      add32 (add32 size (sizeofStructMem a)) (minSizeAligned a)
  · have hcut : x + sizeofStructMem a + size + sizeofStructMem a ≤ (h.header x).next := by
      rw [minSizeAligned_eq, htaken, hptr, hdata, add32_eq_of_lt (by lia)] at hroom
      lia
    right
    refine ⟨hcut, ?_⟩
    rcases hblocks.insertBlock_fields hbs (by lia) hcut with ⟨hnextx, -⟩
    have hdiff : sub32 (x + sizeofStructMem a + size) x = size + sizeofStructMem a := by
      rw [sub32_eq_of_le (by lia) (by lia)]
      lia
    unfold takeBlock markUsed
    rw [if_pos hroom]
    simp only [hptr, hptr2, htaken, hnextx, hdiff]
  · left
    have hnext : ((h.setUsed x 1).header x).next = (h.header x).next := by
      rw [Heap.header_setUsed _ (by decide)]
    unfold takeBlock markUsed
    simp only [if_neg hroom, hnext]

/-- A free block is taken whole or split. -/
theorem takeBlock_spec (hinv : HeapInv a h bs) (hx : x ∈ bs) (hfree : (h.header x).used = 0)
    (hdvd : a.bytes ∣ size) (hfit : x + sizeofStructMem a + size ≤ (h.header x).next) :
    ∃ bs', Takes a h bs (takeBlock a h x size) bs' x size := by
  rcases append_of_mem hx with ⟨before, after, hbs⟩
  rcases takeBlock_cases hinv.blocks hx hfit with heq | ⟨hcut, heq⟩
  · rw [heq]
    exact ⟨bs, takes_whole hinv hbs hfree hfit⟩
  · rw [heq]
    exact ⟨_, takes_front hinv hbs hfree hdvd hcut⟩

def dataPtr (a : AlignSize) (h : Heap) (x : ℕ) : ℕ :=
  h.heapPtr + x + sizeofStructMem a

/-- A new block at `x` with room for `size` bytes. -/
structure Allocates (a : AlignSize) (h : Heap) (bs : List ℕ) (h' : Heap) (bs' : List ℕ)
    (x size : ℕ) : Prop where
  updates : Updates a h bs h' bs' (fun b => b = x ∨ b ∈ usedBlocks h bs) (fun _ => True)
  fresh : x ∉ usedBlocks h bs
  room : x + sizeofStructMem a + size ≤ (h'.header x).next
  lfreeLowest : LfreeLowest h bs → LfreeLowest h' bs'

theorem Takes.used_lt {bs' : List ℕ} (htakes : Takes a h bs h' bs' x size) (hinv : HeapInv a h bs)
    (hpos : 0 < size) : ∀ b ∈ usedBlocks h' bs', b + sizeofStructMem a < h'.heapEnd := by
  intro b hb
  rw [htakes.heapEnd_eq]
  rcases (htakes.used_iff b).mp hb with heq | hold
  · have hx : x ∈ bs' := by
      rw [heq] at hb
      exact (mem_usedBlocks.mp hb).1
    rcases append_of_mem hx with ⟨before, after, hbs⟩
    rcases htakes.blocks.around hbs with ⟨-, -, -, -, -, hle⟩
    have hroom := htakes.room
    rw [htakes.heapEnd_eq] at hle
    omega
  · exact hinv.used_lt b hold

theorem Takes.mem_chain {bs' : List ℕ} (htakes : Takes a h bs h' bs' x size) : x ∈ bs' :=
  (mem_usedBlocks.mp ((htakes.used_iff x).mpr (.inl rfl))).1

theorem Takes.allocates {bs' : List ℕ} {l : ℕ} (htakes : Takes a h bs h' bs' x size)
    (hinv : HeapInv a h bs) (hpos : 0 < size) (hfree : (h.header x).used = 0)
    (hvalid : LfreeValid { h' with lfree := l } bs')
    (hlow : LfreeLowest h bs → LfreeLowest { h' with lfree := l } bs') :
    Allocates a h bs { h' with lfree := l } bs' x size := by
  constructor
  · constructor
    · constructor
      · exact htakes.blocks.of_links_eq ⟨rfl, rfl, rfl⟩ (fun _ _ => ⟨rfl, rfl⟩)
          htakes.blocks.used_end
      · exact htakes.noFreePair
      · exact hvalid
      · exact htakes.used_lt hinv hpos
      · exact htakes.usedMem_eq
      · exact htakes.usedMem_le
    · exact htakes.heapPtr_eq
    · exact htakes.heapEnd_eq
    · exact htakes.memSizeAligned_eq
    · exact htakes.used_iff
    · intro b hb _
      exact htakes.next_eq b hb
  · intro hmem
    exact (mem_usedBlocks.mp hmem).2 hfree
  · exact htakes.room
  · exact hlow

theorem Takes.allocates_above {bs' : List ℕ} (htakes : Takes a h bs h' bs' x size)
    (hinv : HeapInv a h bs) (hpos : 0 < size) (hx : x ∈ bs) (hfree : (h.header x).used = 0)
    (hne : x ≠ h.lfree) : Allocates a h bs h' bs' x size := by
  apply Takes.allocates (l := h'.lfree) htakes hinv hpos hfree
  · unfold LfreeValid
    rw [htakes.lfree_eq]
    change h.lfree = h'.heapEnd ∨ h.lfree ∈ bs' ∧ (h'.header h.lfree).used = 0
    rw [htakes.heapEnd_eq]
    apply hinv.lfreeValid.imp_right
    rintro ⟨hmem, hlfree⟩
    exact htakes.free_of_free _ hmem hlfree hne.symm
  · intro hlow b hb hbfree
    change h'.lfree ≤ b
    rw [htakes.lfree_eq]
    rcases htakes.free_above b hb hbfree with hold | habove
    · exact hlow b hold.1 hold.2
    · have := hlow x hx hfree
      omega

theorem Takes.allocates_lfree {bs' : List ℕ} (htakes : Takes a h bs h' bs' x size)
    (hinv : HeapInv a h bs) (hpos : 0 < size) (hfree : (h.header x).used = 0) (heq : x = h.lfree) :
    ∃ l, searchLfree h' (h'.heapEnd + 1) h'.lfree = some l ∧
      Allocates a h bs { h' with lfree := l } bs' x size := by
  rcases append_of_mem htakes.mem_chain with ⟨before, after, hbs⟩
  have hsplit : bs' ++ [h'.heapEnd] = before ++ x :: (after ++ [h'.heapEnd]) := by
    rw [hbs]
    simp
  have hfuel : (x :: (after ++ [h'.heapEnd])).length ≤ h'.heapEnd + 1 := by
    have hlen := htakes.blocks.length_le
    rw [hbs] at hlen
    simp only [length_append, length_cons, length_nil] at hlen ⊢
    lia
  rcases searchLfree_spec htakes.blocks hsplit hfuel with ⟨l, hsearch, hvalid, hfirst⟩
  refine ⟨l, by rw [htakes.lfree_eq, ← heq, hsearch], ?_⟩
  apply htakes.allocates hinv hpos hfree
  · exact hvalid
  · intro hlow b hb hbfree
    change l ≤ b
    rw [hbs] at hb
    rcases mem_append.mp hb with hbefore | hbehind
    · exfalso
      rcases htakes.blocks.around hbs with ⟨-, -, hleft, -, -, -⟩
      have hbelow := hleft b hbefore
      have hsize := twelve_le_sizeofStructMem a
      rcases htakes.free_above b (by simp [hbs, hbefore]) hbfree with hold | habove
      · have := hlow b hold.1 hold.2
        lia
      · lia
    · apply hfirst b _ hbfree
      rw [← cons_append]
      exact mem_append_left _ hbehind

theorem Takes.moveLfree {bs' : List ℕ} (htakes : Takes a h bs h' bs' x size) (hinv : HeapInv a h bs)
    (hpos : 0 < size) (hx : x ∈ bs) (hfree : (h.header x).used = 0) :
    ∃ h'', moveLfree h' x = some h'' ∧ Allocates a h bs h'' bs' x size := by
  unfold SmallMem.moveLfree
  by_cases heq : x = h.lfree
  · rcases htakes.allocates_lfree hinv hpos hfree heq with ⟨l, hsearch, halloc⟩
    rw [if_pos (heq.trans htakes.lfree_eq.symm), hsearch]
    exact ⟨_, rfl, halloc⟩
  · rw [if_neg (fun hmoved => heq (hmoved.trans htakes.lfree_eq))]
    exact ⟨h', rfl, htakes.allocates_above hinv hpos hx hfree heq⟩

theorem HeapInv.lfree_mem (hinv : HeapInv a h bs) : h.lfree ∈ bs ++ [h.heapEnd] := by
  rcases hinv.lfreeValid with heq | hmem
  · rw [heq]
    simp
  · exact mem_append_left _ hmem.1

theorem Allocates.of_le {bs' : List ℕ} {size' : ℕ} (halloc : Allocates a h bs h' bs' x size)
    (hle : size' ≤ size) : Allocates a h bs h' bs' x size' := by
  constructor
  · exact halloc.updates
  · exact halloc.fresh
  · have := halloc.room
    omega
  · exact halloc.lfreeLowest

theorem dataSize_spec (a : AlignSize) (size : ℕ) : rtAlign a size ≤ dataSize a (rtAlign a size) ∧
      0 < dataSize a (rtAlign a size) ∧ a.bytes ∣ dataSize a (rtAlign a size) := by
  have hsize := twelve_le_sizeofStructMem a
  unfold dataSize
  rw [minSizeAligned_eq]
  split_ifs with hsmall
  · exact ⟨hsmall.le, by omega, dvd_sizeofStructMem a⟩
  · exact ⟨le_rfl, by omega, dvd_rtAlign a⟩

theorem takeBlock_allocates {fuel : ℕ} (hinv : HeapInv a h bs)
    (hfound : searchFree a h (dataSize a (rtAlign a size)) fuel h.lfree = some (some x)) :
    ∃ h' bs', moveLfree (takeBlock a h x (dataSize a (rtAlign a size))) x = some h' ∧
      Allocates a h bs h' bs' x (rtAlign a size) := by
  rcases dataSize_spec a size with ⟨hle, hpos, hdvd⟩
  rcases searchFree_sound hinv.blocks hinv.lfree_mem hfound with ⟨hx, hfree, hfit⟩
  rcases takeBlock_spec hinv hx hfree hdvd hfit with ⟨bs', htakes⟩
  rcases htakes.moveLfree hinv hpos hx hfree with ⟨h', hmove, halloc⟩
  exact ⟨h', bs', hmove, halloc.of_le hle⟩

/-- A request is refused, or served with a fresh block. -/
theorem rtMalloc_spec {result : Heap × ℕ} (hinv : HeapInv a h bs)
    (hmalloc : rtMalloc a h size = some result) : result = (h, rtNull) ∨
      ∃ bs' x, result.2 = dataPtr a h x ∧ Allocates a h bs result.1 bs' x (rtAlign a size) := by
  unfold rtMalloc at hmalloc
  simp only at hmalloc
  split_ifs at hmalloc with hzero hlarge
  · exact .inl (some.inj hmalloc).symm
  · exact .inl (some.inj hmalloc).symm
  · split at hmalloc
    · simp at hmalloc
    · exact .inl (some.inj hmalloc).symm
    · next ptr hsearch =>
        rcases takeBlock_allocates hinv hsearch with ⟨h', bs', hmove, halloc⟩
        rw [hmove] at hmalloc
        have hresult := (some.inj hmalloc).symm
        rw [hresult]
        refine .inr ⟨bs', ptr, ?_, halloc⟩
        rw [dataPtr, ← halloc.updates.heapPtr_eq]

theorem rtMalloc_total (hinv : HeapInv a h bs) (hroom : minSizeAligned a ≤ h.memSizeAligned)
    (size : ℕ) : ∃ result, rtMalloc a h size = some result := by
  unfold rtMalloc
  simp only
  split_ifs with hzero hlarge
  · exact ⟨_, rfl⟩
  · exact ⟨_, rfl⟩
  · have hfit : dataSize a (rtAlign a size) ≤ h.memSizeAligned := by
      unfold dataSize
      split_ifs
      · exact hroom
      · omega
    rcases append_of_mem hinv.lfree_mem with ⟨before, after, hsplit⟩
    have hfuel : (h.lfree :: after).length ≤ h.heapEnd + 1 := by
      have hlen := hinv.blocks.length_le
      have heq := congrArg List.length hsplit
      simp only [length_append, length_cons, length_nil] at heq ⊢
      omega
    rcases searchFree_total hinv.blocks hfit hsplit hfuel with ⟨found, hsearch⟩
    rw [hsearch]
    cases found with
    | none => exact ⟨_, rfl⟩
    | some ptr =>
      rcases takeBlock_allocates hinv hsearch with ⟨h', bs', hmove, -⟩
      simp only [hmove]
      exact ⟨_, rfl⟩

end RtThread.SmallMem
