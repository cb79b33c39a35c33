import RtThread.SmallMemOps

/-!
# Releasing and resizing blocks

The specifications of `rt_free`, of the shrinking branch of `rt_realloc`, and
of the calls that write to data areas.
-/

namespace RtThread.SmallMem

open List Word Heap

variable {a : AlignSize} {h h' : Heap} {bs before after : List ℕ} {x y size : ℕ}

def markFree (h : Heap) (x : ℕ) : Heap :=
  let h := h.setUsed x 0
  let h := h.setMagic x 0
  let h := if x < h.lfree then { h with lfree := x } else h
  { h with usedMem := sub32 h.usedMem (sub32 (h.header x).next x) }

theorem markFree_static (h : Heap) (x : ℕ) : (markFree h x).heapPtr = h.heapPtr ∧
      (markFree h x).heapEnd = h.heapEnd ∧ (markFree h x).memSizeAligned = h.memSizeAligned ∧
      (markFree h x).lfree = min x h.lfree ∧ (markFree h x).maxMem = h.maxMem := by
  unfold markFree
  simp only
  split_ifs with hlow
  · exact ⟨rfl, rfl, rfl, (min_eq_left (le_of_lt hlow)).symm, rfl⟩
  · exact ⟨rfl, rfl, rfl, (min_eq_right (not_lt.mp hlow)).symm, rfl⟩

theorem markFree_header (h : Heap) (x b : ℕ) :
    (markFree h x).header b = ((h.setUsed x 0).setMagic x 0).header b := by
  unfold markFree
  simp only
  split_ifs <;> rfl

theorem markFree_usedMem (h : Heap) (x : ℕ) :
    (markFree h x).usedMem = sub32 h.usedMem (sub32 (h.header x).next x) := by
  have hnext : (((h.setUsed x 0).setMagic x 0).header x).next = (h.header x).next := by
    rw [header_setMagic _ (by decide), header_setUsed _ (by decide)]
  unfold markFree
  simp only
  split_ifs
  · exact congrArg (fun next => sub32 h.usedMem (sub32 next x)) hnext
  · exact congrArg (fun next => sub32 h.usedMem (sub32 next x)) hnext

theorem Blocks.markFree_fields (hblocks : Blocks a h bs) (hx : x ∈ bs) :
    ((markFree h x).header x).used = 0 ∧ ∀ b ∈ bs ++ [h.heapEnd],
        ((markFree h x).header b).next = (h.header b).next ∧
          ((markFree h x).header b).prev = (h.header b).prev ∧
          (b ≠ x → ((markFree h x).header b).used = (h.header b).used) := by
  have hsize := twelve_le_sizeofStructMem a
  have hhead : (markFree h x).header x = { h.header x with magic := 0, used := 0 } := by
    rw [markFree_header, header_setMagic _ (by decide), header_setUsed _ (by decide)]
  constructor
  · rw [hhead]
  · intro b hb
    by_cases hbx : b = x
    · rw [hbx, hhead]
      exact ⟨rfl, rfl, fun hne => absurd rfl hne⟩
    · have hapart := hblocks.apart hb (mem_append_left _ hx) hbx
      rw [markFree_header, header_setMagic_of_apart _ (by omega),
        header_setUsed_of_apart _ (by omega)]
      exact ⟨rfl, rfl, fun _ => rfl⟩

theorem Blocks.markFree (hblocks : Blocks a h bs) (hx : x ∈ bs) : Blocks a (markFree h x) bs := by
  rcases hblocks.markFree_fields hx with ⟨-, hframe⟩
  rcases markFree_static h x with ⟨hptr, hend, hsize, -, -⟩
  apply hblocks.of_links_eq ⟨hptr, hend, hsize⟩
  · intro b hb
    exact ⟨(hframe b hb).1, (hframe b hb).2.1⟩
  · rw [(hframe h.heapEnd (by simp)).2.2]
    · exact hblocks.used_end
    · intro heq
      exact hblocks.end_not_mem (heq ▸ hx)

theorem Blocks.markFree_usedMem (hblocks : Blocks a h bs) (hx : x ∈ usedBlocks h bs)
    (husedMem : h.usedMem = usedSum h bs) :
    (SmallMem.markFree h x).usedMem = usedSum (SmallMem.markFree h x) bs ∧
      (SmallMem.markFree h x).usedMem ≤ h.usedMem := by
  rcases mem_usedBlocks.mp hx with ⟨hmem, hused⟩
  rcases append_of_mem hmem with ⟨before, after, hbs⟩
  rcases hblocks.markFree_fields hmem with ⟨hfree, hframe⟩
  rcases hblocks.around hbs with ⟨-, -, -, hgap, -, hle⟩
  have hfits := hblocks.fits
  have hsum : usedSum h bs = usedSum (SmallMem.markFree h x) bs + ((h.header x).next - x) := by
    apply usedSum_mark hbs hblocks.nodup _ hfree hused
    intro b hb hne
    have hkeep := hframe b (mem_append_left _ hb)
    exact ⟨(hkeep.2.2 hne).symm, hkeep.1.symm⟩
  have hbound := hblocks.usedSum_le
  have heq := SmallMem.markFree_usedMem h x
  have hblock : sub32 (h.header x).next x = (h.header x).next - x :=
    sub32_eq_of_le (by lia) (by lia)
  rw [hblock, husedMem, sub32_eq_of_le (by lia) (by lia)] at heq
  lia

theorem HeapInv.markFree (hinv : HeapInv a h bs) (hx : x ∈ usedBlocks h bs) :
    LfreeValid (markFree h x) bs ∧ (LfreeLowest h bs → LfreeLowest (SmallMem.markFree h x) bs) ∧
      ∀ b, b ∈ usedBlocks (SmallMem.markFree h x) bs ↔ b ∈ usedBlocks h bs ∧ b ≠ x := by
  rcases mem_usedBlocks.mp hx with ⟨hmem, hused⟩
  rcases hinv.blocks.markFree_fields hmem with ⟨hfree, hframe⟩
  rcases markFree_static h x with ⟨-, hend, -, hlfree, -⟩
  have hflag : ∀ b ∈ bs, b ≠ x → ((SmallMem.markFree h x).header b).used = (h.header b).used :=
    fun b hb => (hframe b (mem_append_left _ hb)).2.2
  have hxend := hinv.used_lt x hx
  refine ⟨?_, ?_, ?_⟩
  · refine .inr ?_
    rw [hlfree]
    rcases Nat.lt_or_ge x h.lfree with hlow | hhigh
    · rw [min_eq_left (le_of_lt hlow)]
      exact ⟨hmem, hfree⟩
    · rw [min_eq_right hhigh]
      rcases hinv.lfreeValid with heq | ⟨hlmem, hlused⟩
      · omega
      · have hne : h.lfree ≠ x := by
          intro heq
          exact hused (heq ▸ hlused)
        exact ⟨hlmem, (hflag _ hlmem hne).trans hlused⟩
  · intro hlow b hb hbfree
    rw [hlfree]
    by_cases hbx : b = x
    · exact hbx ▸ min_le_left x h.lfree
    · rw [hflag b hb hbx] at hbfree
      exact (min_le_right x h.lfree).trans (hlow b hb hbfree)
  · intro b
    rw [mem_usedBlocks, mem_usedBlocks]
    by_cases hbx : b = x
    · simp [hbx, hfree]
    · constructor
      · rintro ⟨hb, hflagb⟩
        exact ⟨⟨hb, by rwa [hflag b hb hbx] at hflagb⟩, hbx⟩
      · rintro ⟨⟨hb, hflagb⟩, -⟩
        exact ⟨hb, by rwa [hflag b hb hbx]⟩

theorem HeapInv.of_plugHoles (hblocks : Blocks a h (before ++ x :: after))
    (hx : (h.header x).used = 0) (hleft : NoFreePair h before) (hright : NoFreePair h after)
    (hvalid : LfreeValid h (before ++ x :: after)) (hlt : ∀ b ∈ usedBlocks h (before ++ x :: after),
      b + sizeofStructMem a < h.heapEnd) (husedMem : h.usedMem = usedSum h (before ++ x :: after))
    (hmax : h.usedMem ≤ h.maxMem) : ∃ bs', HeapInv a (plugHoles h x) bs' ∧
      Coarsens a h (before ++ x :: after) (plugHoles h x) bs' := by
  rcases coarsens_plugHoles hblocks rfl hx hleft hright with ⟨bs', hcoarse, hpair⟩
  refine ⟨bs', ?_, hcoarse⟩
  constructor
  · exact hcoarse.blocks
  · exact hpair
  · exact hcoarse.lfreeValid hvalid
  · rw [hcoarse.used_eq, hcoarse.heapEnd_eq]
    exact hlt
  · rw [hcoarse.usedMem_eq, hcoarse.usedSum_eq, husedMem]
  · rw [hcoarse.usedMem_eq, hcoarse.maxMem_eq]
    exact hmax

theorem rtFree_dataPtr (hinv : HeapInv a h bs) (hx : x ∈ usedBlocks h bs) :
    rtFree a h (dataPtr a h x) = plugHoles (markFree h x) x := by
  have hsize := twelve_le_sizeofStructMem a
  have hlt := hinv.used_lt x hx
  have hnull : ¬h.heapPtr + x + sizeofStructMem a = rtNull := by
    unfold rtNull
    lia
  have hinside : ¬(h.heapPtr + x + sizeofStructMem a < h.heapPtr ∨
      h.heapPtr + h.heapEnd ≤ h.heapPtr + x + sizeofStructMem a) := by lia
  have hmem : h.heapPtr + x + sizeofStructMem a - sizeofStructMem a - h.heapPtr = x := by
    lia
  unfold rtFree dataPtr
  rw [if_neg hnull, if_neg hinside, hmem]
  rfl

/-- The block is free behind the call and merged with its neighbours. -/
theorem rtFree_spec (hinv : HeapInv a h bs) (hx : x ∈ usedBlocks h bs) :
    ∃ bs', Updates a h bs (rtFree a h (dataPtr a h x)) bs'
        (fun b => b ∈ usedBlocks h bs ∧ b ≠ x) (fun b => b ≠ x) ∧
      (LfreeLowest h bs → LfreeLowest (rtFree a h (dataPtr a h x)) bs') := by
  rcases mem_usedBlocks.mp hx with ⟨hmem, -⟩
  rcases append_of_mem hmem with ⟨before, after, hbs⟩
  rcases hinv.blocks.markFree_fields hmem with ⟨hfree, hframe⟩
  rcases hinv.markFree hx with ⟨hvalid, hlow, husedIff⟩
  rcases hinv.blocks.markFree_usedMem hx hinv.usedMem_eq with ⟨hsum, hle⟩
  rcases markFree_static h x with ⟨hptr, hend, hmemSize, -, hmax⟩
  have hpair := hinv.noFreePair
  have hnodup := hinv.blocks.nodup
  have hcut := hinv.blocks.markFree hmem
  rw [hbs, nodup_append, nodup_cons] at hnodup
  rw [hbs] at hpair
  have hflag : ∀ b ∈ bs, b ≠ x → ((markFree h x).header b).used = (h.header b).used :=
    fun b hb => (hframe b (mem_append_left _ hb)).2.2
  have hleft : NoFreePair (markFree h x) before := by
    apply hpair.left.congr
    intro b hb
    exact hflag b (by simp [hbs, hb]) (hnodup.2.2 b hb x mem_cons_self)
  have hright : NoFreePair (markFree h x) after := by
    apply hpair.right.congr
    intro b hb
    apply hflag b (by simp [hbs, hb])
    intro heq
    exact hnodup.2.1.1 (heq ▸ hb)
  have hlt : ∀ b ∈ usedBlocks (markFree h x) bs,
      b + sizeofStructMem a < (markFree h x).heapEnd := by
    intro b hb
    rw [hend]
    exact hinv.used_lt b ((husedIff b).mp hb).1
  have hmaxle : (markFree h x).usedMem ≤ (markFree h x).maxMem := by
    rw [hmax]
    exact hle.trans hinv.usedMem_le
  rw [rtFree_dataPtr hinv hx]
  rw [hbs] at hcut hvalid hlt hsum
  rcases HeapInv.of_plugHoles hcut hfree hleft hright hvalid hlt hsum hmaxle
    with ⟨bs', hinv', hcoarse⟩
  rw [← hbs] at hcoarse
  refine ⟨bs', ?_, fun hlowest => hcoarse.lfreeLowest (hlow hlowest)⟩
  constructor
  · exact hinv'
  · exact hcoarse.heapPtr_eq.trans hptr
  · exact hcoarse.heapEnd_eq.trans hend
  · exact hcoarse.memSizeAligned_eq.trans hmemSize
  · intro b
    rw [hcoarse.used_eq]
    exact husedIff b
  · intro b hb hne
    rw [hcoarse.next_eq b ((husedIff b).mpr ⟨hb, hne⟩)]
    exact (hframe b (mem_append_left _ (mem_usedBlocks.mp hb).1)).1

def cutBlock (a : AlignSize) (h : Heap) (x n released : ℕ) : Heap :=
  insertBlock a (Heap.setMagic { h with usedMem := sub32 h.usedMem released } n heapMagic) x n

theorem cutBlock_static (a : AlignSize) (h : Heap) (x n released : ℕ) :
    (cutBlock a h x n released).heapPtr = h.heapPtr ∧
      (cutBlock a h x n released).heapEnd = h.heapEnd ∧
      (cutBlock a h x n released).memSizeAligned = h.memSizeAligned ∧
      (cutBlock a h x n released).lfree = h.lfree ∧
      (cutBlock a h x n released).usedMem = sub32 h.usedMem released ∧
      (cutBlock a h x n released).maxMem = h.maxMem :=
  insertBlock_static a _ x n

theorem Blocks.of_headers_eq (hblocks : Blocks a h bs)
    (hsame : h'.heapPtr = h.heapPtr ∧ h'.heapEnd = h.heapEnd ∧ h'.memSizeAligned = h.memSizeAligned)
    (hheader : ∀ b ∈ bs ++ [h.heapEnd], h'.header b = h.header b) : Blocks a h' bs := by
  apply hblocks.of_links_eq hsame
  · intro b hb
    rw [hheader b hb]
    exact ⟨rfl, rfl⟩
  · rw [hheader _ (by simp)]
    exact hblocks.used_end

theorem Blocks.apart_of_inside {b n : ℕ} (hblocks : Blocks a h bs) (hx : x ∈ bs)
    (hb : b ∈ bs ++ [h.heapEnd]) (hlow : x + sizeofStructMem a ≤ n) :
    b + sizeofStructMem a ≤ n ∨ (h.header x).next ≤ b := by
  rcases append_of_mem hx with ⟨before, after, hbs⟩
  rcases hblocks.around hbs with ⟨rest, hrest, hbefore, -, hbehind, -⟩
  rw [hbs, append_assoc, cons_append, hrest] at hb
  simp only [mem_append, mem_cons] at hb
  rcases hb with hb | hb | hb | hb
  · have := hbefore b hb
    lia
  · lia
  · lia
  · have := hbehind b hb
    lia

theorem Blocks.cutBlock {n : ℕ} (released : ℕ) (hblocks : Blocks a h bs)
    (hbs : bs = before ++ x :: after) (hxn : x + sizeofStructMem a ≤ n)
    (hnz : n + sizeofStructMem a ≤ (h.header x).next) (hdvd : a.bytes ∣ n) :
    Blocks a (cutBlock a h x n released) (before ++ x :: n :: after) ∧
      ((SmallMem.cutBlock a h x n released).header x).next = n ∧
      ((SmallMem.cutBlock a h x n released).header n).used = 0 ∧
      ((SmallMem.cutBlock a h x n released).header n).next = (h.header x).next ∧
      ∀ b ∈ bs ++ [h.heapEnd],
        ((SmallMem.cutBlock a h x n released).header b).used = (h.header b).used ∧ (b ≠ x →
          ((SmallMem.cutBlock a h x n released).header b).next = (h.header b).next) := by
  have hsize := twelve_le_sizeofStructMem a
  have hx : x ∈ bs := by simp [hbs]
  generalize hmarked :
    (setMagic { h with usedMem := sub32 h.usedMem released } n heapMagic) = h₁
  have hheader : ∀ b ∈ bs ++ [h.heapEnd], h₁.header b = h.header b := by
    intro b hb
    have hapart := hblocks.apart_of_inside hx hb hxn
    rw [← hmarked, header_setMagic_of_apart _ (by omega)]
    rfl
  have hsame : h₁.heapPtr = h.heapPtr ∧ h₁.heapEnd = h.heapEnd ∧
      h₁.memSizeAligned = h.memSizeAligned := by
    rw [← hmarked]
    exact ⟨rfl, rfl, rfl⟩
  have hblocks₁ := hblocks.of_headers_eq hsame hheader
  have hheadx := hheader x (mem_append_left _ hx)
  rw [← hheadx] at hnz
  rcases hblocks₁.insertBlock_fields hbs hxn hnz with ⟨hnextx, hfreen, hnextn, -, -, hframe⟩
  have hcut := hblocks₁.insertBlock hbs hxn hnz hdvd
  rw [hheadx] at hnextn
  rw [hsame.2.1] at hframe
  unfold SmallMem.cutBlock
  rw [hmarked]
  refine ⟨hcut, hnextx, hfreen, hnextn, ?_⟩
  intro b hb
  rw [← hheader b hb]
  exact ⟨(hframe b hb).1, (hframe b hb).2.1⟩

theorem usedBlocks_cutBlock {n : ℕ} (hbs : bs = before ++ x :: after)
    (hfree : (h'.header n).used = 0) (hflag : ∀ b ∈ bs, (h'.header b).used = (h.header b).used) :
    usedBlocks h' (before ++ x :: n :: after) = usedBlocks h bs := by
  have hshape : before ++ x :: n :: after = (before ++ [x]) ++ n :: after := by simp
  have hkeep : usedBlocks h' bs = usedBlocks h bs := usedBlocks_congr hflag
  rw [← hkeep, hbs, hshape, usedBlocks_append, usedBlocks_cons_free hfree, ← usedBlocks_append]
  simp

theorem usedSum_cutBlock {n : ℕ} (hbs : bs = before ++ x :: after) (hnodup : bs.Nodup)
    (hused : (h.header x).used ≠ 0) (hfree : (h'.header n).used = 0)
    (hframe : ∀ b ∈ bs, (h'.header b).used = (h.header b).used ∧
      (b ≠ x → (h'.header b).next = (h.header b).next)) :
    usedSum h' (before ++ x :: n :: after) + ((h.header x).next - x) =
      usedSum h bs + ((h'.header x).next - x) := by
  rw [hbs, nodup_append, nodup_cons] at hnodup
  have hused' : (h'.header x).used ≠ 0 := by
    rw [(hframe x (by simp [hbs])).1]
    exact hused
  have hleft : usedSum h' before = usedSum h before := by
    apply usedSum_congr
    · intro b hb
      exact (hframe b (by simp [hbs, hb])).1
    · intro b hb
      exact (hframe b (by simp [hbs, hb])).2 (hnodup.2.2 b hb x mem_cons_self)
  have hright : usedSum h' after = usedSum h after := by
    apply usedSum_congr
    · intro b hb
      exact (hframe b (by simp [hbs, hb])).1
    · intro b hb
      apply (hframe b (by simp [hbs, hb])).2
      intro heq
      exact hnodup.2.1.1 (heq ▸ hb)
  rw [hbs, usedSum_append, usedSum_append, usedSum_cons_used hused',
    usedSum_cons_free hfree, usedSum_cons_used hused, hleft, hright]
  omega

theorem plugHoles_lower_lfree {n : ℕ} (hnext : (h.header n).next = h.lfree) (hne : n ≠ h.lfree)
    (hfree : (h.header h.lfree).used = 0) (hend : h.lfree ≠ h.heapEnd) :
    plugHoles h n = plugHoles { h with lfree := n } n := by
  have hcond : n ≠ (h.header n).next ∧ (h.header (h.header n).next).used = 0 ∧
      (h.header n).next ≠ h.heapEnd := by
    rw [hnext]
    exact ⟨hne, hfree, hend⟩
  have hcond' : n ≠ (header { h with lfree := n } n).next ∧
      (header { h with lfree := n } (header { h with lfree := n } n).next).used = 0 ∧
      (header { h with lfree := n } n).next ≠ h.heapEnd := hcond
  have hjoin : combine h n (h.header n).next =
      combine { h with lfree := n } n (header { h with lfree := n } n).next := by
    unfold combine
    rw [if_pos hnext.symm, if_neg]
    · rfl
    · exact hcond.1
  unfold plugHoles
  simp only [if_pos hcond, if_pos hcond', hjoin]

/-- A shrink of the block `x` keeps `lfree` the lowest free block: either
`lfree` lies below the block, or the block behind it is free, so that the join
with the released part lowers `lfree` where this is needed. -/
def ShrinkKeepsLfree (h : Heap) (x : ℕ) : Prop :=
  h.lfree < x ∨ (h.header (h.header x).next).used = 0

theorem HeapInv.lfree_of_next_free (hinv : HeapInv a h bs) (hx : x ∈ usedBlocks h bs)
    (hlow : LfreeLowest h bs) (hfree : (h.header (h.header x).next).used = 0) :
    h.lfree < x ∨ h.lfree = (h.header x).next := by
  rcases mem_usedBlocks.mp hx with ⟨hmem, hused⟩
  have hnext : (h.header x).next ∈ bs := by
    have hin := hinv.blocks.next_mem (mem_append_left _ hmem)
    rcases mem_append.mp hin with hin | hin
    · exact hin
    · exact absurd (mem_singleton.mp hin ▸ hfree) hinv.blocks.used_end
  have hle := hlow _ hnext hfree
  rcases hinv.lfreeValid with heq | ⟨hlmem, hlfree⟩
  · have := hinv.blocks.mem_lt hnext
    omega
  · have hapart := hinv.blocks.apart_of_inside hmem
      (mem_append_left _ hlmem) (le_refl (x + sizeofStructMem a))
    have hne : h.lfree ≠ x := by
      intro heq
      exact hused (heq ▸ hlfree)
    omega

theorem HeapInv.lfree_behind_cut {n : ℕ} {h₁ : Heap} (hinv : HeapInv a h bs)
    (hx : x ∈ usedBlocks h bs) (hbs : bs = before ++ x :: after) (hxn : x < n)
    (hnz : n < (h.header x).next) (hend : h₁.heapEnd = h.heapEnd) (hlfree : h₁.lfree = h.lfree)
    (hfreen : (h₁.header n).used = 0) (hnextn : (h₁.header n).next = (h.header x).next)
    (hflag : ∀ b ∈ bs, (h₁.header b).used = (h.header b).used) :
    ∃ l, plugHoles h₁ n = plugHoles { h₁ with lfree := l } n ∧
      LfreeValid { h₁ with lfree := l } (before ++ x :: n :: after) ∧
      (ShrinkKeepsLfree h x → LfreeLowest h bs →
        LfreeLowest { h₁ with lfree := l } (before ++ x :: n :: after)) := by
  have hold : ∀ b ∈ bs, b ∈ before ++ x :: n :: after := by
    intro b hb
    rw [hbs] at hb
    simp only [mem_append, mem_cons] at hb ⊢
    exact hb.imp_right (Or.imp_right .inr)
  have hnew : ∀ b ∈ before ++ x :: n :: after, b = n ∨ b ∈ bs := by
    intro b hb
    rw [hbs]
    simp only [mem_append, mem_cons] at hb ⊢
    rcases hb with hb | hb | hb | hb
    · exact .inr (.inl hb)
    · exact .inr (.inr (.inl hb))
    · exact .inl hb
    · exact .inr (.inr (.inr hb))
  by_cases hjoin : h.lfree = (h.header x).next ∧ (h.header h.lfree).used = 0
  · rcases hjoin with ⟨heq, hfree⟩
    have hlmem : h.lfree ∈ bs := by
      rcases hinv.lfreeValid with hlast | hmem
      · exact absurd (hlast ▸ hfree) hinv.blocks.used_end
      · exact hmem.1
    have hlend : h.lfree ≠ h.heapEnd := by
      intro hlast
      exact hinv.blocks.used_end (hlast ▸ hfree)
    refine ⟨n, ?_, .inr ⟨by simp, hfreen⟩, ?_⟩
    · apply plugHoles_lower_lfree
      · rw [hnextn, hlfree, heq]
      · rw [hlfree]
        lia
      · rw [hlfree, hflag _ hlmem, hfree]
      · rw [hlfree, hend]
        exact hlend
    · intro _ hlow b hb hbfree
      change n ≤ b
      rcases hnew b hb with rfl | hmem
      · exact le_rfl
      · have hbfree' : (h.header b).used = 0 := by
          rw [← hflag b hmem]
          exact hbfree
        have := hlow b hmem hbfree'
        lia
  · refine ⟨h₁.lfree, rfl, ?_, ?_⟩
    · unfold LfreeValid
      change h₁.lfree = h₁.heapEnd ∨ h₁.lfree ∈ _ ∧ (h₁.header h₁.lfree).used = 0
      rw [hlfree, hend]
      apply hinv.lfreeValid.imp_right
      rintro ⟨hlmem, hlused⟩
      exact ⟨hold _ hlmem, (hflag _ hlmem).trans hlused⟩
    · intro hkeeps hlow b hb hbfree
      change h₁.lfree ≤ b
      rw [hlfree]
      have hbelow : h.lfree < x := by
        rcases hkeeps with hbelow | hfree
        · exact hbelow
        · rcases hinv.lfree_of_next_free hx hlow hfree with hbelow | heq
          · exact hbelow
          · exact absurd ⟨heq, heq ▸ hfree⟩ hjoin
      rcases hnew b hb with rfl | hmem
      · lia
      · have hbfree' : (h.header b).used = 0 := by
          rw [← hflag b hmem]
          exact hbfree
        exact hlow b hmem hbfree'

theorem splitBlock_eq {newsize : ℕ} (hblocks : Blocks a h bs) (hx : x ∈ bs)
    (hsize : x + sizeofStructMem a + size = (h.header x).next)
    (hroom : newsize + sizeofStructMem a ≤ size) : splitBlock a h x size newsize = plugHoles
        (cutBlock a h x (x + sizeofStructMem a + newsize) (size - newsize))
        (x + sizeofStructMem a + newsize) := by
  have hfits := hblocks.fits
  rcases append_of_mem hx with ⟨before, after, hbs⟩
  rcases hblocks.around hbs with ⟨-, -, -, -, -, hle⟩
  have hptr2 : add32 (add32 x (sizeofStructMem a)) newsize = x + sizeofStructMem a + newsize := by
    rw [add32_eq_of_lt (x := x) (by lia), add32_eq_of_lt (by lia)]
  have hreleased : sub32 size newsize = size - newsize := sub32_eq_of_le (by lia) (by lia)
  unfold splitBlock
  rw [hptr2, hreleased]
  rfl

theorem splitBlock_spec {newsize : ℕ} (hinv : HeapInv a h bs) (hx : x ∈ usedBlocks h bs)
    (hdvd : a.bytes ∣ newsize) (hsize : x + sizeofStructMem a + size = (h.header x).next)
    (hroom : newsize + sizeofStructMem a ≤ size) :
    ∃ bs', Updates a h bs (splitBlock a h x size newsize) bs'
        (fun b => b ∈ usedBlocks h bs) (fun b => b ≠ x) ∧
      ((splitBlock a h x size newsize).header x).next = x + sizeofStructMem a + newsize ∧
      (ShrinkKeepsLfree h x → LfreeLowest h bs →
        LfreeLowest (splitBlock a h x size newsize) bs') := by
  rcases mem_usedBlocks.mp hx with ⟨hmem, hused⟩
  rcases append_of_mem hmem with ⟨before, after, hbs⟩
  have hblocks := hinv.blocks
  have hfits := hblocks.fits
  have htwelve := twelve_le_sizeofStructMem a
  generalize hn : x + sizeofStructMem a + newsize = n
  have hdvdn : a.bytes ∣ n := by
    rw [← hn]
    apply Nat.dvd_add (Nat.dvd_add _ (dvd_sizeofStructMem a)) hdvd
    exact hblocks.aligned x (mem_append_left _ hmem)
  have hsplit : splitBlock a h x size newsize =
      plugHoles (cutBlock a h x n (size - newsize)) n := by
    rw [← hn]
    exact splitBlock_eq hblocks hmem hsize hroom
  rcases hblocks.cutBlock (size - newsize) hbs (by lia : _ ≤ n) (by lia) hdvdn
    with ⟨hcut, hnextx, hfreen, hnextn, hframe⟩
  rcases cutBlock_static a h x n (size - newsize)
    with ⟨hptr, hend, hmemSize, hlfree, husedMem, hmax⟩
  have hkeep : ∀ b ∈ bs, ((cutBlock a h x n (size - newsize)).header b).used = (h.header b).used ∧
        (b ≠ x → ((cutBlock a h x n (size - newsize)).header b).next = (h.header b).next) :=
    fun b hb => hframe b (mem_append_left _ hb)
  rw [hsplit]
  generalize cutBlock a h x n (size - newsize) = h₁ at *
  have hblocksEq := usedBlocks_cutBlock hbs hfreen fun b hb => (hkeep b hb).1
  have hsumEq := usedSum_cutBlock hbs hblocks.nodup hused hfreen hkeep
  rcases hinv.lfree_behind_cut hx hbs (by lia) (by lia) hend hlfree hfreen hnextn
    (fun b hb => (hkeep b hb).1) with ⟨l, hplug, hvalid, hlow⟩
  have hshape : before ++ x :: n :: after = (before ++ [x]) ++ n :: after := by simp
  have hpair := hinv.noFreePair
  rw [hbs] at hpair
  have hleft : NoFreePair h₁ (before ++ [x]) := by
    apply noFreePair_of_used
    · apply hpair.left.congr
      intro b hb
      exact (hkeep b (by simp [hbs, hb])).1
    · rw [(hkeep x hmem).1]
      exact hused
    · exact .nil
  have hright : NoFreePair h₁ after := by
    apply hpair.right.congr
    intro b hb
    exact (hkeep b (by simp [hbs, hb])).1
  have hlt : ∀ b ∈ usedBlocks h₁ (before ++ x :: n :: after),
      b + sizeofStructMem a < h₁.heapEnd := by
    intro b hb
    rw [hblocksEq] at hb
    rw [hend]
    exact hinv.used_lt b hb
  have hbound := hblocks.usedSum_le
  have hmark : h₁.usedMem = h.usedMem - (size - newsize) := by
    rw [husedMem, hinv.usedMem_eq, sub32_eq_of_le (by lia) (by lia)]
  have hsum : h₁.usedMem = usedSum h₁ (before ++ x :: n :: after) := by
    rw [hmark, hinv.usedMem_eq]
    lia
  have hmaxle : h₁.usedMem ≤ h₁.maxMem := by
    have := hinv.usedMem_le
    lia
  have hcut' : Blocks a { h₁ with lfree := l } (before ++ x :: n :: after) :=
    hcut.of_headers_eq ⟨rfl, rfl, rfl⟩ (fun _ _ => rfl)
  rw [hplug]
  rw [hshape] at hcut' hvalid hlt hsum
  rcases HeapInv.of_plugHoles hcut' hfreen hleft hright hvalid hlt hsum hmaxle
    with ⟨bs', hinv', hcoarse⟩
  rw [← hshape] at hcoarse
  have husedEq : usedBlocks { h₁ with lfree := l } (before ++ x :: n :: after) =
      usedBlocks h bs := hblocksEq
  refine ⟨bs', ?_, ?_, fun hkeeps hlowest => hcoarse.lfreeLowest (hlow hkeeps hlowest)⟩
  · constructor
    · exact hinv'
    · exact hcoarse.heapPtr_eq.trans hptr
    · exact hcoarse.heapEnd_eq.trans hend
    · exact hcoarse.memSizeAligned_eq.trans hmemSize
    · intro b
      rw [hcoarse.used_eq, husedEq]
    · intro b hb hne
      rw [hcoarse.next_eq b (husedEq ▸ hb)]
      exact (hkeep b (mem_usedBlocks.mp hb).1).2 hne
  · rw [hcoarse.next_eq x (husedEq ▸ hx)]
    exact hnextx

theorem Blocks.header_of_data_write {memory : Memory} {lo count : ℕ} (hblocks : Blocks a h bs)
    (hx : x ∈ bs) (hlo : x + sizeofStructMem a ≤ lo) (hhi : lo + count ≤ (h.header x).next)
    (hwrite : ∀ addr, addr + 12 ≤ 4294967296 → addr + 12 ≤ lo ∨ lo + count ≤ addr →
      Memory.AgreeOn h.memory memory addr 12) :
    ∀ b ∈ bs ++ [h.heapEnd], Heap.header { h with memory := memory } b = h.header b := by
  intro b hb
  have hsize := twelve_le_sizeofStructMem a
  have hfits := hblocks.fits
  have hapart := hblocks.apart_of_inside hx hb hlo
  have hle : b ≤ h.heapEnd := by
    rcases mem_append.mp hb with hb | hb
    · have := hblocks.mem_lt hb
      lia
    · exact (mem_singleton.mp hb).le
  apply header_congr
  exact hwrite b (by lia) (by lia)

theorem HeapInv.write {memory : Memory} {lo count : ℕ} (hinv : HeapInv a h bs) (hx : x ∈ bs)
    (hlo : x + sizeofStructMem a ≤ lo) (hhi : lo + count ≤ (h.header x).next)
    (hwrite : ∀ addr, addr + 12 ≤ 4294967296 → addr + 12 ≤ lo ∨ lo + count ≤ addr →
      Memory.AgreeOn h.memory memory addr 12) :
    HeapInv a { h with memory := memory } bs ∧
      ∀ b ∈ bs, Heap.header { h with memory := memory } b = h.header b := by
  have hheader := hinv.blocks.header_of_data_write hx hlo hhi hwrite
  have hkeep : ∀ b ∈ bs, header { h with memory := memory } b = h.header b :=
    fun b hb => hheader b (mem_append_left _ hb)
  have hused : ∀ b ∈ bs, (header { h with memory := memory } b).used = (h.header b).used := by
    intro b hb
    rw [hkeep b hb]
  have hnext : ∀ b ∈ bs, (header { h with memory := memory } b).next = (h.header b).next := by
    intro b hb
    rw [hkeep b hb]
  refine ⟨?_, hkeep⟩
  constructor
  · exact hinv.blocks.of_headers_eq ⟨rfl, rfl, rfl⟩ hheader
  · exact hinv.noFreePair.congr hused
  · apply hinv.lfreeValid.imp_right
    rintro ⟨hmem, hfree⟩
    exact ⟨hmem, (hused _ hmem).trans hfree⟩
  · rw [usedBlocks_congr hused]
    exact hinv.used_lt
  · rw [usedSum_congr hused hnext]
    exact hinv.usedMem_eq
  · exact hinv.usedMem_le

theorem Allocates.mem_used {bs' : List ℕ}
    (halloc : Allocates a h bs h' bs' x size) : x ∈ usedBlocks h' bs' :=
  (halloc.updates.used_iff x).mpr (.inl rfl)

theorem Allocates.write {bs' : List ℕ} {memory : Memory} {lo count : ℕ}
    (halloc : Allocates a h bs h' bs' x size) (hlo : x + sizeofStructMem a ≤ lo)
    (hhi : lo + count ≤ x + sizeofStructMem a + size) (hwrite : ∀ addr, addr + 12 ≤ 4294967296 →
      addr + 12 ≤ lo ∨ lo + count ≤ addr → Memory.AgreeOn h'.memory memory addr 12) :
    Allocates a h bs { h' with memory := memory } bs' x size := by
  have hx : x ∈ bs' := (mem_usedBlocks.mp halloc.mem_used).1
  have hroom := halloc.room
  rcases halloc.updates.inv.write hx hlo (by omega) hwrite with ⟨hinv, hheader⟩
  have hused : usedBlocks { h' with memory := memory } bs' = usedBlocks h' bs' := by
    apply usedBlocks_congr
    intro b hb
    rw [hheader b hb]
  constructor
  · constructor
    · exact hinv
    · exact halloc.updates.heapPtr_eq
    · exact halloc.updates.heapEnd_eq
    · exact halloc.updates.memSizeAligned_eq
    · intro b
      rw [hused]
      exact halloc.updates.used_iff b
    · intro b hb hkept
      have hmem := (halloc.updates.used_iff b).mpr (.inr hb)
      rw [hheader b (mem_usedBlocks.mp hmem).1]
      exact halloc.updates.next_eq b hb hkept
  · exact halloc.fresh
  · rw [hheader x hx]
    exact hroom
  · intro hlow b hb hfree
    rw [hheader b hb] at hfree
    exact halloc.lfreeLowest hlow b hb hfree

theorem rtCalloc_spec {count : ℕ} {result : Heap × ℕ} (hinv : HeapInv a h bs)
    (hwrap : mul32 count size + a.bytes ≤ 4294967296)
    (hcalloc : rtCalloc a h count size = some result) : result = (h, rtNull) ∨
      ∃ bs' x, result.2 = dataPtr a h x ∧
        Allocates a h bs result.1 bs' x (rtAlign a (mul32 count size)) := by
  unfold rtCalloc at hcalloc
  cases hmalloc : rtMalloc a h (mul32 count size) with
  | none => simp [hmalloc] at hcalloc
  | some allocated =>
    rcases allocated with ⟨h₁, p⟩
    simp only [hmalloc] at hcalloc
    rcases rtMalloc_spec hinv hmalloc with hnull | ⟨bs', x, hp, halloc⟩
    · rw [Prod.mk.injEq] at hnull
      rw [if_neg (by simp [hnull.2])] at hcalloc
      rw [← Option.some.inj hcalloc, hnull.1, hnull.2]
      exact .inl rfl
    · simp only at hp halloc
      have hsize := twelve_le_sizeofStructMem a
      have hfits := halloc.updates.inv.blocks.fits
      have hptr := halloc.updates.heapPtr_eq
      have hnull : p ≠ rtNull := by
        rw [hp, dataPtr, rtNull]
        lia
      have hoffset : p - h₁.heapPtr = x + sizeofStructMem a := by
        rw [hp, dataPtr, hptr]
        lia
      rw [if_pos hnull, hoffset] at hcalloc
      rw [← Option.some.inj hcalloc]
      have hle : mul32 count size ≤ rtAlign a (mul32 count size) := le_rtAlign a hwrap
      refine .inr ⟨bs', x, hp, ?_⟩
      apply halloc.write le_rfl (Nat.add_le_add_left hle _)
      intro addr haddr hapart
      apply Memory.clear_agreeOn _ _ haddr hapart
      have hx : x ∈ bs' := (mem_usedBlocks.mp ((halloc.updates.used_iff x).mpr (.inl rfl))).1
      rcases append_of_mem hx with ⟨before, after, hbs⟩
      rcases halloc.updates.inv.blocks.around hbs with ⟨-, -, -, -, -, hlast⟩
      have hroom := halloc.room
      lia

def Shrinks (a : AlignSize) (h : Heap) (x newsize : ℕ) : Prop :=
  rtAlign a newsize ≤ h.memSizeAligned ∧
    add32 (add32 (rtAlign a newsize) (sizeofStructMem a)) minSize <
      sub32 (sub32 (h.header x).next x) (sizeofStructMem a)

/-- The three results of `rt_realloc` on a used block: the heap is unchanged,
the block has been cut, or its contents have moved to another block. -/
inductive Resized (a : AlignSize) (h : Heap) (bs : List ℕ) (x newsize : ℕ) : Heap × ℕ → Prop where
  | same {p : ℕ} (hp : p = rtNull ∨ p = dataPtr a h x) : Resized a h bs x newsize (h, p)
  | cut {h' : Heap} {bs' : List ℕ} (hshrinks : Shrinks a h x newsize)
      (hupdates : Updates a h bs h' bs' (fun b => b ∈ usedBlocks h bs) (fun b => b ≠ x))
      (hlow : ShrinkKeepsLfree h x → LfreeLowest h bs → LfreeLowest h' bs') :
      Resized a h bs x newsize (h', dataPtr a h x)
  | moved {h' : Heap} {bs' : List ℕ} {y : ℕ} (hfresh : y ∉ usedBlocks h bs)
      (hupdates : Updates a h bs h' bs'
        (fun b => (b = y ∨ b ∈ usedBlocks h bs) ∧ b ≠ x) (fun b => b ≠ x))
      (hlow : LfreeLowest h bs → LfreeLowest h' bs') :
      Resized a h bs x newsize (h', dataPtr a h y)

theorem Allocates.released {bs' : List ℕ} (halloc : Allocates a h bs h' bs' y size)
    (hx : x ∈ usedBlocks h bs) : ∃ bs'', Updates a h bs (rtFree a h' (dataPtr a h x)) bs''
        (fun b => (b = y ∨ b ∈ usedBlocks h bs) ∧ b ≠ x) (fun b => b ≠ x) ∧
      ((rtFree a h' (dataPtr a h x)).header y).next = (h'.header y).next ∧
      (LfreeLowest h bs → LfreeLowest (rtFree a h' (dataPtr a h x)) bs'') := by
  have hx' : x ∈ usedBlocks h' bs' := (halloc.updates.used_iff x).mpr (.inr hx)
  have hptr : dataPtr a h x = dataPtr a h' x := by
    rw [dataPtr, dataPtr, halloc.updates.heapPtr_eq]
  have hyx : y ≠ x := fun heq => halloc.fresh (heq ▸ hx)
  rw [hptr]
  rcases rtFree_spec halloc.updates.inv hx' with ⟨bs'', hfreed, hlow⟩
  refine ⟨bs'', ?_, hfreed.next_eq y halloc.mem_used hyx,
    fun hlowest => hlow (halloc.lfreeLowest hlowest)⟩
  constructor
  · exact hfreed.inv
  · exact hfreed.heapPtr_eq.trans halloc.updates.heapPtr_eq
  · exact hfreed.heapEnd_eq.trans halloc.updates.heapEnd_eq
  · exact hfreed.memSizeAligned_eq.trans halloc.updates.memSizeAligned_eq
  · intro b
    rw [hfreed.used_iff, halloc.updates.used_iff]
  · intro b hb hne
    rw [hfreed.next_eq b ((halloc.updates.used_iff b).mpr (.inr hb)) hne]
    exact halloc.updates.next_eq b hb trivial

def dataLength (a : AlignSize) (h : Heap) (x : ℕ) : ℕ :=
  (h.header x).next - (x + sizeofStructMem a)

def copyData (a : AlignSize) (h : Heap) (x y count : ℕ) : Heap :=
  { h with
    memory := h.memory.copy (y + sizeofStructMem a) (x + sizeofStructMem a) count }

def moveData (a : AlignSize) (h h₁ : Heap) (x y count : ℕ) : Heap :=
  rtFree a (copyData a h₁ x y count) (dataPtr a h x)

inductive ReallocPath (a : AlignSize) (h : Heap) (bs : List ℕ) (x newsize : ℕ) :
    Heap × ℕ → Prop where
  | tooLarge (hlarge : h.memSizeAligned < rtAlign a newsize) :
      ReallocPath a h bs x newsize (h, rtNull)
  | equal (hequal : dataLength a h x = rtAlign a newsize) :
      ReallocPath a h bs x newsize (h, dataPtr a h x)
  | cut (hshrinks : Shrinks a h x newsize)
      (hroom : rtAlign a newsize + sizeofStructMem a + minSize < dataLength a h x) :
      ReallocPath a h bs x newsize
        (splitBlock a h x (dataLength a h x) (rtAlign a newsize), dataPtr a h x)
  | refused (hne : dataLength a h x ≠ rtAlign a newsize)
      (hroom : dataLength a h x ≤ rtAlign a newsize + sizeofStructMem a + minSize)
      (hmalloc : rtMalloc a h (rtAlign a newsize) = some (h, rtNull)) :
      ReallocPath a h bs x newsize (h, rtNull)
  | moved {h₁ : Heap} {bs' : List ℕ} {y : ℕ}
      (hmalloc : rtMalloc a h (rtAlign a newsize) = some (h₁, dataPtr a h y))
      (halloc : Allocates a h bs h₁ bs' y (rtAlign a newsize)) :
      ReallocPath a h bs x newsize
        (moveData a h h₁ x y (min (dataLength a h x) (rtAlign a newsize)), dataPtr a h y)

theorem HeapInv.le_rtAlign_rtAlign {newsize : ℕ} (hinv : HeapInv a h bs)
    (hsize : rtAlign a newsize ≤ h.memSizeAligned) :
    rtAlign a newsize ≤ rtAlign a (rtAlign a newsize) := by
  have hbytes := bytes_le_sizeofStructMem a
  have hfits := hinv.blocks.fits
  have hend := hinv.blocks.heapEnd_eq
  exact le_rtAlign a (by omega)

theorem HeapInv.dataLength_eq (hinv : HeapInv a h bs) (hx : x ∈ usedBlocks h bs) :
    x + sizeofStructMem a + dataLength a h x = (h.header x).next ∧ (h.header x).next ≤ h.heapEnd ∧
      sub32 (sub32 (h.header x).next x) (sizeofStructMem a) = dataLength a h x := by
  have hfits := hinv.blocks.fits
  rcases append_of_mem (mem_usedBlocks.mp hx).1 with ⟨before, after, hbs⟩
  rcases hinv.blocks.around hbs with ⟨-, -, -, hgap, -, hle⟩
  unfold dataLength
  refine ⟨by lia, hle, ?_⟩
  rw [sub32_eq_of_le (x := (h.header x).next) (by lia) (by lia), sub32_eq_of_le (by lia) (by lia)]
  lia

theorem rtRealloc_path {newsize : ℕ} {result : Heap × ℕ} (hinv : HeapInv a h bs)
    (hx : x ∈ usedBlocks h bs) (hrealloc : rtRealloc a h (dataPtr a h x) newsize = some result) :
    ReallocPath a h bs x newsize result := by
  have htwelve := twelve_le_sizeofStructMem a
  have hfits := hinv.blocks.fits
  have hend := hinv.blocks.heapEnd_eq
  have hlt := hinv.used_lt x hx
  rcases hinv.dataLength_eq hx with ⟨hlength, hle, hsub⟩
  have hnull : ¬dataPtr a h x = rtNull := by
    unfold dataPtr rtNull
    lia
  have hinside : ¬(dataPtr a h x < h.heapPtr ∨ h.heapPtr + h.heapEnd ≤ dataPtr a h x) := by
    unfold dataPtr
    lia
  have hoffset : dataPtr a h x - sizeofStructMem a - h.heapPtr = x := by
    unfold dataPtr
    lia
  have hcount : (if dataLength a h x < rtAlign a newsize then dataLength a h x
      else rtAlign a newsize) = min (dataLength a h x) (rtAlign a newsize) := by
    split_ifs <;> lia
  unfold rtRealloc at hrealloc
  simp only [hoffset, hsub, hcount] at hrealloc
  rw [if_neg hnull, if_neg hinside] at hrealloc
  split_ifs at hrealloc with hlarge hequal hshrink
  · rw [← Option.some.inj hrealloc]
    exact .tooLarge hlarge
  · rw [← Option.some.inj hrealloc]
    exact .equal hequal
  · have hroom : rtAlign a newsize + sizeofStructMem a + minSize < dataLength a h x := by
      unfold minSize at hshrink ⊢
      rw [add32_eq_of_lt (x := rtAlign a newsize) (by lia), add32_eq_of_lt (by lia)] at hshrink
      exact hshrink
    rw [← Option.some.inj hrealloc]
    exact .cut ⟨not_lt.mp hlarge, by rw [hsub]; exact hshrink⟩ hroom
  · have hroom : dataLength a h x ≤ rtAlign a newsize + sizeofStructMem a + minSize := by
      unfold minSize at hshrink ⊢
      rw [add32_eq_of_lt (x := rtAlign a newsize) (by lia), add32_eq_of_lt (by lia)] at hshrink
      exact not_lt.mp hshrink
    cases hmalloc : rtMalloc a h (rtAlign a newsize) with
    | none => simp [hmalloc] at hrealloc
    | some allocated =>
      rcases allocated with ⟨h₁, nmem⟩
      simp only [hmalloc] at hrealloc
      rcases rtMalloc_spec hinv hmalloc with hfail | ⟨bs', y, hy, halloc⟩
      · rw [Prod.mk.injEq] at hfail
        rcases hfail with ⟨hheap, hfail⟩
        rw [if_neg (by simp [hfail]), hheap, hfail] at hrealloc
        rw [hheap, hfail] at hmalloc
        rw [← Option.some.inj hrealloc]
        exact .refused hequal hroom hmalloc
      · simp only at hy halloc
        have hptr := halloc.updates.heapPtr_eq
        have hfound : nmem ≠ rtNull := by
          rw [hy, dataPtr, rtNull]
          lia
        have htarget : nmem - h₁.heapPtr = y + sizeofStructMem a := by
          rw [hy, dataPtr, hptr]
          lia
        have hsource : dataPtr a h x - h₁.heapPtr = x + sizeofStructMem a := by
          rw [dataPtr, hptr]
          lia
        rw [if_pos hfound, htarget, hsource] at hrealloc
        rw [← Option.some.inj hrealloc, hy]
        rw [hy] at hmalloc
        exact .moved hmalloc (halloc.of_le (hinv.le_rtAlign_rtAlign (not_lt.mp hlarge)))

theorem Allocates.copied {bs' : List ℕ} {count : ℕ} (halloc : Allocates a h bs h' bs' y size)
    (hcount : count ≤ size) : Allocates a h bs (copyData a h' x y count) bs' y size := by
  apply halloc.write le_rfl (Nat.add_le_add_left hcount _)
  intro addr _ hapart
  exact Memory.copy_agreeOn _ hapart

theorem Allocates.moved {bs' : List ℕ} {count : ℕ} (halloc : Allocates a h bs h' bs' y size)
    (hx : x ∈ usedBlocks h bs) (hcount : count ≤ size) :
    ∃ bs'', Updates a h bs (moveData a h h' x y count) bs''
        (fun b => (b = y ∨ b ∈ usedBlocks h bs) ∧ b ≠ x) (fun b => b ≠ x) ∧
      y + sizeofStructMem a + size ≤ ((moveData a h h' x y count).header y).next ∧
      (LfreeLowest h bs → LfreeLowest (moveData a h h' x y count) bs'') := by
  have hcopied : Allocates a h bs (copyData a h' x y count) bs' y size := halloc.copied hcount
  rcases hcopied.released hx with ⟨bs'', hupdates, hnext, hlow⟩
  exact ⟨bs'', hupdates, hcopied.room.trans hnext.ge, hlow⟩

/-- The three ways a block is resized. -/
theorem rtRealloc_spec {newsize : ℕ} {result : Heap × ℕ} (hinv : HeapInv a h bs)
    (hx : x ∈ usedBlocks h bs) (hrealloc : rtRealloc a h (dataPtr a h x) newsize = some result) :
    Resized a h bs x newsize result := by
  cases rtRealloc_path hinv hx hrealloc with
  | tooLarge => exact .same (.inl rfl)
  | equal => exact .same (.inr rfl)
  | cut hshrinks hroom =>
    have hdvd : a.bytes ∣ rtAlign a newsize := dvd_rtAlign a
    rcases splitBlock_spec hinv hx hdvd (hinv.dataLength_eq hx).1 (by omega)
      with ⟨bs', hupdates, -, hlow⟩
    exact .cut hshrinks hupdates hlow
  | refused => exact .same (.inl rfl)
  | moved hmalloc halloc =>
    rcases halloc.moved hx (min_le_right _ _) with ⟨bs', hupdates, -, hlow⟩
    exact .moved halloc.fresh hupdates hlow

end RtThread.SmallMem
