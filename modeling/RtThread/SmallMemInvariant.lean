import RtThread.SmallMemMerge

/-!
# The invariant of the small-memory heap

`HeapInv` adds the statistics and the position of `lfree` to the block chain.
This module establishes it for `rt_system_heap_init`, and follows the two
loops of `rt_malloc` along the chain.
-/

namespace RtThread.SmallMem

open List Word

/-- The block chain, the lowest free block and the counters. -/
structure HeapInv (a : AlignSize) (h : Heap) (bs : List ℕ) : Prop where
  blocks : Blocks a h bs
  noFreePair : NoFreePair h bs
  lfreeValid : LfreeValid h bs
  used_lt : ∀ b ∈ usedBlocks h bs, b + sizeofStructMem a < h.heapEnd
  usedMem_eq : h.usedMem = usedSum h bs
  usedMem_le : h.usedMem ≤ h.maxMem

variable {a : AlignSize} {h : Heap} {bs before after : List ℕ} {x size : ℕ}

theorem usedSum_append (h : Heap) (l l' : List ℕ) :
    usedSum h (l ++ l') = usedSum h l + usedSum h l' := by
  simp [usedSum, usedBlocks_append]

theorem usedSum_cons_free (hfree : (h.header x).used = 0) (l : List ℕ) :
    usedSum h (x :: l) = usedSum h l := by
  simp [usedSum, usedBlocks_cons_free hfree]

theorem usedSum_cons_used (hused : (h.header x).used ≠ 0) (l : List ℕ) :
    usedSum h (x :: l) = ((h.header x).next - x) + usedSum h l := by
  simp [usedSum, usedBlocks_cons_used hused]

theorem usedSum_congr {h' : Heap} {l : List ℕ}
    (hused : ∀ b ∈ l, (h'.header b).used = (h.header b).used)
    (hnext : ∀ b ∈ l, (h'.header b).next = (h.header b).next) : usedSum h' l = usedSum h l :=
  usedSum_eq_of_usedBlocks (usedBlocks_congr hused) fun b hb => hnext b (mem_usedBlocks.mp hb).1

theorem usedSum_le_of_chain {s e : ℕ} {l : List ℕ}
    (hchain : (x :: l ++ [e]).IsChain (Adjacent s e h.header)) : x + usedSum h (x :: l) ≤ e := by
  induction l generalizing x with
  | nil =>
    have hlink := (isChain_cons_cons.mp hchain).1
    have hgap := hlink.gap
    have hnext := hlink.next_eq
    by_cases hused : (h.header x).used = 0
    · rw [usedSum_cons_free hused]
      simp [usedSum, usedBlocks]
      lia
    · rw [usedSum_cons_used hused, hnext]
      simp [usedSum, usedBlocks]
      lia
  | cons y l ih =>
    have hparts := isChain_cons_cons.mp hchain
    have hgap := hparts.1.gap
    have hnext := hparts.1.next_eq
    have htail := ih hparts.2
    by_cases hused : (h.header x).used = 0
    · rw [usedSum_cons_free hused]
      lia
    · rw [usedSum_cons_used hused, hnext]
      lia

theorem Blocks.usedSum_le (hblocks : Blocks a h bs) : usedSum h bs ≤ h.heapEnd := by
  have hchain := hblocks.chain
  cases bs with
  | nil => simp [usedSum, usedBlocks]
  | cons x l =>
    have := usedSum_le_of_chain hchain
    omega

/-- A new heap is one free block. -/
theorem heapInit_spec {memory : Memory} {beginAddr endAddr : ℕ} (hend : endAddr < 4294967296)
    (hinit : rtSystemHeapInit a memory beginAddr endAddr = some h) :
    HeapInv a h [0] ∧ LfreeLowest h [0] ∧ usedBlocks h [0] = [] := by
  have hsize := twelve_le_sizeofStructMem a
  have hdvd := dvd_sizeofStructMem a
  have hle := rtAlignDown_le a hend
  have hdown := dvd_rtAlignDown a hend
  have hup : a.bytes ∣ rtAlign a beginAddr := dvd_rtAlign a
  unfold rtSystemHeapInit at hinit
  simp only at hinit
  split_ifs at hinit with hfits
  rw [Option.some.injEq] at hinit
  generalize hsizeEq : rtAlignDown a endAddr - rtAlign a beginAddr -
    2 * sizeofStructMem a = memSize at *
  have hmagic : heapMagic < 65536 := by decide
  have hmemDvd : a.bytes ∣ memSize := by
    rw [← hsizeEq]
    exact Nat.dvd_sub (Nat.dvd_sub hdown hup) (Dvd.dvd.mul_left hdvd 2)
  have hfirst : h.header 0 = ⟨heapMagic, 0, memSize + sizeofStructMem a, 0⟩ := by
    rw [← hinit, Heap.header_setPrev_of_apart _ (by lia),
      Heap.header_setNext_of_apart _ (by lia), Heap.header_setUsed_of_apart _ (by lia),
      Heap.header_setMagic_of_apart _ (by lia), Heap.header_setUsed _ (by lia),
      Heap.header_setPrev _ (by lia), Heap.header_setNext _ (by lia),
      Heap.header_setMagic _ hmagic]
  have hlast : h.header (memSize + sizeofStructMem a) =
      ⟨heapMagic, 1, memSize + sizeofStructMem a, memSize + sizeofStructMem a⟩ := by
    rw [← hinit, Heap.header_setPrev _ (by lia), Heap.header_setNext _ (by lia),
      Heap.header_setUsed _ (by lia), Heap.header_setMagic _ hmagic]
  have hheapEnd : h.heapEnd = memSize + sizeofStructMem a := by
    rw [← hinit]
    rfl
  have hheapPtr : h.heapPtr = rtAlign a beginAddr := by
    rw [← hinit]
    rfl
  have hlfree : h.lfree = 0 := by
    rw [← hinit]
    rfl
  have husedBlocks : usedBlocks h [0] = [] := by
    simp [usedBlocks, hfirst]
  refine ⟨?_, ?_, husedBlocks⟩
  · constructor
    · constructor
      · rw [hheapEnd, ← hinit]
        rfl
      · rw [hheapPtr, hheapEnd]
        lia
      · rw [hheapPtr]
        exact hup
      · rfl
      · rw [hheapEnd]
        refine isChain_cons_cons.mpr ⟨⟨?_, by lia, fun hne => absurd rfl hne⟩, .singleton _⟩
        rw [hfirst]
      · intro b hb
        rw [hheapEnd] at hb
        simp only [cons_append, nil_append, mem_cons, not_mem_nil,
          or_false] at hb
        rcases hb with rfl | rfl
        · exact dvd_zero _
        · exact Nat.dvd_add hmemDvd hdvd
      · rw [hfirst]
      · rw [hheapEnd, hlast]
      · rw [hheapEnd, hlast]
        simp
    · exact .singleton 0
    · refine .inr ?_
      rw [hlfree]
      exact ⟨by simp, by rw [hfirst]⟩
    · simp [husedBlocks]
    · rw [usedSum, husedBlocks, ← hinit]
      rfl
    · rw [← hinit]
      exact le_rfl
  · intro b _ _
    rw [hlfree]
    exact Nat.zero_le b

theorem Blocks.next_mem (hblocks : Blocks a h bs) (hx : x ∈ bs ++ [h.heapEnd]) :
    (h.header x).next ∈ bs ++ [h.heapEnd] := by
  rcases mem_append.mp hx with hmem | hmem
  · rcases append_of_mem hmem with ⟨before, after, hbs⟩
    rcases hblocks.around hbs with ⟨rest, hrest, -, -, -, -⟩
    rw [hbs, append_assoc, cons_append, hrest]
    simp
  · rw [mem_singleton.mp hmem, hblocks.next_end]
    simp

/-- What the search finds is free and large enough. -/
theorem searchFree_sound (hblocks : Blocks a h bs) {fuel found : ℕ} (hx : x ∈ bs ++ [h.heapEnd])
    (hfound : searchFree a h size fuel x = some (some found)) :
    found ∈ bs ∧ (h.header found).used = 0 ∧
      found + sizeofStructMem a + size ≤ (h.header found).next := by
  induction fuel generalizing x with
  | zero => simp [searchFree] at hfound
  | succ fuel ih =>
    rw [searchFree] at hfound
    split_ifs at hfound with hbound hfit
    · simp only [Option.some.injEq] at hfound
      subst found
      have hmem : x ∈ bs := by
        rcases mem_append.mp hx with hmem | hmem
        · exact hmem
        · exact absurd (mem_singleton.mp hmem ▸ hfit.1) hblocks.used_end
      rcases append_of_mem hmem with ⟨before, after, hbs⟩
      rcases hblocks.around hbs with ⟨-, -, -, hgap, -, hle⟩
      have hfits := hblocks.fits
      have hroom := hfit.2
      rw [add32_eq_of_lt (by lia), sub32_eq_of_le (by lia) (by lia)] at hroom
      exact ⟨hmem, hfit.1, by lia⟩
    · exact ih (hblocks.next_mem hx) hfound
    · simp at hfound

theorem length_le_of_chain {s e : ℕ} (hs : 0 < s) {l : List ℕ}
    (hchain : (x :: l ++ [e]).IsChain (Adjacent s e h.header)) : x + (x :: l).length ≤ e := by
  induction l generalizing x with
  | nil =>
    have hgap := (isChain_cons_cons.mp hchain).1.gap
    simp only [length_singleton]
    omega
  | cons y l ih =>
    have hparts := isChain_cons_cons.mp hchain
    have hgap := hparts.1.gap
    have htail := ih hparts.2
    simp only [length_cons] at htail ⊢
    omega

theorem Blocks.length_le (hblocks : Blocks a h bs) : bs.length ≤ h.heapEnd := by
  have hchain := hblocks.chain
  have hsize := twelve_le_sizeofStructMem a
  cases bs with
  | nil => simp
  | cons x l =>
    have := length_le_of_chain (by omega) hchain
    omega

theorem Blocks.suffix_next (hblocks : Blocks a h bs) {y : ℕ} {suffix : List ℕ}
    (hsplit : bs ++ [h.heapEnd] = before ++ x :: y :: suffix) : (h.header x).next = y ∧ x < y := by
  have hchain := hblocks.chain
  have hsize := twelve_le_sizeofStructMem a
  rw [hsplit] at hchain
  have hlink := (isChain_append_cons_cons.mp hchain).2.1
  exact ⟨hlink.next_eq, by have := hlink.gap; omega⟩

theorem Blocks.suffix_last (hsplit : bs ++ [h.heapEnd] = before ++ [x]) : x = h.heapEnd := by
  have hlast := congrArg List.getLast? hsplit
  simpa using hlast.symm

theorem searchFree_total (hblocks : Blocks a h bs) (hroom : size ≤ h.memSizeAligned)
    {fuel : ℕ} {suffix : List ℕ} (hsplit : bs ++ [h.heapEnd] = before ++ x :: suffix)
    (hfuel : (x :: suffix).length ≤ fuel) : ∃ result, searchFree a h size fuel x = some result := by
  induction suffix generalizing before x fuel with
  | nil =>
    have hx := Blocks.suffix_last hsplit
    have hend := hblocks.heapEnd_eq
    have hfits := hblocks.fits
    cases fuel with
    | zero => simp at hfuel
    | succ fuel =>
      have hout : ¬x < sub32 h.memSizeAligned size := by
        rw [sub32_eq_of_le hroom (by lia)]
        lia
      exact ⟨none, by rw [searchFree, if_neg hout]⟩
  | cons y suffix ih =>
    cases fuel with
    | zero => simp at hfuel
    | succ fuel =>
      rw [searchFree]
      split_ifs
      · exact ⟨_, rfl⟩
      · rw [(hblocks.suffix_next hsplit).1]
        have hsplit' : bs ++ [h.heapEnd] = (before ++ [x]) ++ y :: suffix := by
          rw [hsplit]
          simp
        exact ih hsplit' (by simp only [length_cons] at hfuel ⊢; lia)
      · exact ⟨_, rfl⟩

theorem searchLfree_spec (hblocks : Blocks a h bs) {fuel : ℕ} {suffix : List ℕ}
    (hsplit : bs ++ [h.heapEnd] = before ++ x :: suffix) (hfuel : (x :: suffix).length ≤ fuel) :
    ∃ found, searchLfree h fuel x = some found ∧
      (found = h.heapEnd ∨ (found ∈ bs ∧ (h.header found).used = 0)) ∧
      ∀ b ∈ x :: suffix, (h.header b).used = 0 → found ≤ b := by
  induction suffix generalizing before x fuel with
  | nil =>
    have hx := Blocks.suffix_last hsplit
    cases fuel with
    | zero => simp at hfuel
    | succ fuel =>
      refine ⟨x, by rw [searchLfree, if_neg (by simp [hx])], .inl hx, ?_⟩
      intro b hb _
      exact (mem_singleton.mp hb).ge
  | cons y suffix ih =>
    rcases hblocks.suffix_next hsplit with ⟨hnext, hlt⟩
    have hpair := pairwise_of_chain hblocks.chain
    rw [hsplit, pairwise_append, pairwise_cons] at hpair
    have hx : x ∈ bs := by
      have hmem : x ∈ bs ++ [h.heapEnd] := by
        rw [hsplit]
        simp
      rcases mem_append.mp hmem with hmem | hmem
      · exact hmem
      · have hend : h.heapEnd ∈ y :: suffix := by
          have hlast := congrArg List.getLast? hsplit
          have hlast' : (y :: suffix).getLast? = some h.heapEnd := by
            simpa [getLast?_append, getLast?_cons_cons] using hlast.symm
          exact mem_of_getLast? hlast'
        have hgap := hpair.2.1.1 _ hend
        have heq := mem_singleton.mp hmem
        have hsize := twelve_le_sizeofStructMem a
        omega
    have hxend : x ≠ h.heapEnd := fun heq => hblocks.end_not_mem (heq ▸ hx)
    cases fuel with
    | zero => simp at hfuel
    | succ fuel =>
      by_cases hused : (h.header x).used = 0
      · refine ⟨x, by rw [searchLfree, if_neg (by simp [hused])], .inr ⟨hx, hused⟩, ?_⟩
        intro b hb _
        rcases mem_cons.mp hb with rfl | hb
        · exact le_rfl
        · have := hpair.2.1.1 b hb
          omega
      · have hsplit' : bs ++ [h.heapEnd] = (before ++ [x]) ++ y :: suffix := by
          rw [hsplit]
          simp
        have hfuel' : (y :: suffix).length ≤ fuel := by
          simp only [length_cons] at hfuel ⊢
          omega
        rcases ih hsplit' hfuel' with ⟨found, hfound, hvalid, hlow⟩
        refine ⟨found, ?_, hvalid, ?_⟩
        · rw [searchLfree, if_pos ⟨hused, hxend⟩, hnext, hfound]
        · intro b hb hfree
          rcases mem_cons.mp hb with rfl | hb
          · contradiction
          · exact hlow b hb hfree

end RtThread.SmallMem
