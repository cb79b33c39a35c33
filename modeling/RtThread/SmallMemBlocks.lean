import RtThread.SmallMemChain

/-!
# Editing the block chain

`Blocks a h bs` says that the headers of the heap form the chain `bs`, ending
at `heap_end`.  The lemmas below follow the three edits of `mem.c` through this
description: joining two free blocks, cutting a block in two, and changing the
`used` flag of a block.
-/

namespace RtThread.SmallMem

open List Word Heap

/-- The chain of headers starts at offset zero, is aligned, and ends at
`heap_end`, whose header is never free. -/
structure Blocks (a : AlignSize) (h : Heap) (bs : List ℕ) : Prop where
  heapEnd_eq : h.heapEnd = h.memSizeAligned + sizeofStructMem a
  fits : h.heapPtr + h.heapEnd + sizeofStructMem a < 4294967296
  heapPtr_dvd : a.bytes ∣ h.heapPtr
  first : bs.head? = some 0
  chain : (bs ++ [h.heapEnd]).IsChain (Adjacent (sizeofStructMem a) h.heapEnd h.header)
  aligned : ∀ b ∈ bs ++ [h.heapEnd], a.bytes ∣ b
  prev_first : (h.header 0).prev = 0
  next_end : (h.header h.heapEnd).next = h.heapEnd
  used_end : (h.header h.heapEnd).used ≠ 0

variable {a : AlignSize} {h : Heap} {bs before after : List ℕ} {x y ptr z : ℕ}

namespace Blocks

section

variable (hblocks : Blocks a h bs)
include hblocks

theorem around (hbs : bs = before ++ x :: after) :
    ∃ rest, after ++ [h.heapEnd] = (h.header x).next :: rest ∧
      (∀ b ∈ before, b + sizeofStructMem a ≤ x) ∧ x + sizeofStructMem a ≤ (h.header x).next ∧
      (∀ b ∈ rest, (h.header x).next + sizeofStructMem a ≤ b) ∧ (h.header x).next ≤ h.heapEnd := by
  rcases exists_cons_of_append_head after h.heapEnd with ⟨z, rest, hz, -⟩
  have hchain := hblocks.chain
  rw [hbs, append_assoc, cons_append, hz] at hchain
  have hxz := (isChain_append_cons_cons.mp hchain).2.1
  have hpair := pairwise_of_chain hchain
  rw [pairwise_append] at hpair
  rcases hpair with ⟨-, hright, hcross⟩
  rw [pairwise_cons] at hright
  have hzrest := (pairwise_cons.mp hright.2).1
  rw [hxz.next_eq]
  have hlast : h.heapEnd ∈ z :: rest := by
    rw [← hz]
    simp
  have hle : z ≤ h.heapEnd := by
    rcases mem_cons.mp hlast with heq | hmem
    · exact heq.ge
    · have := hzrest _ hmem
      omega
  exact ⟨rest, hz, fun b hb => hcross b hb x mem_cons_self, hxz.gap, hzrest, hle⟩

theorem mem_lt (hx : x ∈ bs) : x + sizeofStructMem a ≤ h.heapEnd := by
  rcases append_of_mem hx with ⟨before, after, hbs⟩
  rcases hblocks.around hbs with ⟨-, -, -, hgap, -, hle⟩
  omega

theorem zero_mem : 0 ∈ bs := by
  have hfirst := hblocks.first
  cases bs with
  | nil => simp at hfirst
  | cons b bs =>
    simp only [head?_cons, Option.some.injEq] at hfirst
    simp [hfirst]

theorem end_not_mem : h.heapEnd ∉ bs := by
  intro hmem
  have hlt := hblocks.mem_lt hmem
  have hsize := twelve_le_sizeofStructMem a
  omega

theorem apart (hx : x ∈ bs ++ [h.heapEnd]) (hy : y ∈ bs ++ [h.heapEnd]) (hne : x ≠ y) :
    x + sizeofStructMem a ≤ y ∨ y + sizeofStructMem a ≤ x := by
  have hpair := pairwise_of_chain hblocks.chain
  rcases append_of_mem hx with ⟨before, after, hsplit⟩
  rw [hsplit] at hpair hy
  rw [pairwise_append, pairwise_cons] at hpair
  simp only [mem_append, mem_cons] at hy
  rcases hy with hy | hy | hy
  · exact .inr (hpair.2.2 y hy x mem_cons_self)
  · exact absurd hy.symm hne
  · exact .inl (hpair.2.1.1 y hy)

theorem nodup : bs.Nodup := by
  have hpair := pairwise_of_chain hblocks.chain
  have hsize := twelve_le_sizeofStructMem a
  apply (pairwise_append.mp hpair).1.imp
  intro x y hxy heq
  omega

theorem of_links_eq {h' : Heap}
    (hsame : h'.heapPtr = h.heapPtr ∧ h'.heapEnd = h.heapEnd ∧ h'.memSizeAligned = h.memSizeAligned)
    (hlinks : ∀ b ∈ bs ++ [h.heapEnd], (h'.header b).next = (h.header b).next ∧
      (h'.header b).prev = (h.header b).prev) (hend : (h'.header h.heapEnd).used ≠ 0) :
    Blocks a h' bs := by
  rcases hsame with ⟨hptr, hlast, hsize⟩
  constructor
  · rw [hlast, hsize, hblocks.heapEnd_eq]
  · rw [hptr, hlast]
    exact hblocks.fits
  · rw [hptr]
    exact hblocks.heapPtr_dvd
  · exact hblocks.first
  · rw [hlast]
    apply chain_frame hblocks.chain
    · intro b hb
      exact (hlinks b (dropLast_subset _ hb)).1
    · intro b hb
      exact (hlinks b (mem_of_mem_tail hb)).2
  · rw [hlast]
    exact hblocks.aligned
  · rw [(hlinks 0 (mem_append_left _ hblocks.zero_mem)).2]
    exact hblocks.prev_first
  · rw [hlast, (hlinks h.heapEnd (by simp)).1]
    exact hblocks.next_end
  · rw [hlast]
    exact hend

end

end Blocks

theorem combine_lfree (h : Heap) (x y : ℕ) :
    (combine h x y).lfree = if h.lfree = y then x else h.lfree := by
  unfold combine
  split_ifs <;> rfl

theorem combine_static (h : Heap) (x y : ℕ) :
    (combine h x y).heapPtr = h.heapPtr ∧ (combine h x y).heapEnd = h.heapEnd ∧
      (combine h x y).memSizeAligned = h.memSizeAligned ∧
      (combine h x y).usedMem = h.usedMem ∧ (combine h x y).maxMem = h.maxMem := by
  unfold combine
  split_ifs <;> exact ⟨rfl, rfl, rfl, rfl, rfl⟩

theorem combine_header {z : ℕ} (hz : (h.header y).next = z) (hxy : x + 12 ≤ y) (hyz : y + 12 ≤ z)
    (hzlt : z < 4294967296) :
    (combine h x y).header x = { h.header x with next := z } ∧
      (combine h x y).header z = { h.header z with prev := x } ∧
      ∀ b, (b + 12 ≤ x ∨ x + 12 ≤ b) → (b + 12 ≤ z ∨ z + 12 ≤ b) →
        (combine h x y).header b = h.header b := by
  have hcombine : ∀ b, (combine h x y).header b = ((h.setNext x z).setPrev z x).header b := by
    intro b
    have hy : ((h.setNext x z).header y).next = z := by
      rw [header_setNext_of_apart h (by lia), hz]
    unfold combine
    split_ifs with hlfree
    · simp only [header, setNext, setPrev] at hz hy ⊢
      rw [hz, hy]
    · simp only [header, setNext, setPrev] at hz hy ⊢
      rw [hz, hy]
  constructor
  · rw [hcombine, header_setPrev_of_apart _ (by lia), header_setNext _ hzlt]
  constructor
  · rw [hcombine, header_setPrev _ (by lia), header_setNext_of_apart _ (by lia)]
  · intro b hbx hbz
    rw [hcombine, header_setPrev_of_apart _ (by lia), header_setNext_of_apart _ (by lia)]

theorem Blocks.combine_fields (hblocks : Blocks a h bs) (hbs : bs = before ++ x :: y :: after) :
    ((combine h x y).header x).next = (h.header y).next ∧
      ((combine h x y).header (h.header y).next).prev = x ∧ ∀ b ∈ bs ++ [h.heapEnd],
        ((combine h x y).header b).used = (h.header b).used ∧
        (b ≠ x → ((combine h x y).header b).next = (h.header b).next) ∧ (b ≠ (h.header y).next →
          ((combine h x y).header b).prev = (h.header b).prev) := by
  have hsize := twelve_le_sizeofStructMem a
  have hfits := hblocks.fits
  have hbs' : bs = (before ++ [x]) ++ y :: after := by
    rw [hbs]
    simp
  rcases hblocks.around hbs' with ⟨rest, hrest, hbefore, hygap, -, hzle⟩
  have hxy := hbefore x (by simp)
  rcases combine_header (h := h) (y := y) rfl (by lia : x + 12 ≤ y) (by lia) (by lia)
    with ⟨hheadx, hheadz, hframe⟩
  have hxmem : x ∈ bs ++ [h.heapEnd] := by
    rw [hbs]
    simp
  have hzmem : (h.header y).next ∈ bs ++ [h.heapEnd] := by
    rw [hbs', append_assoc, cons_append, hrest]
    simp
  refine ⟨by rw [hheadx], by rw [hheadz], ?_⟩
  intro b hb
  by_cases hbx : b = x
  · rw [hbx, hheadx]
    exact ⟨rfl, fun hne => absurd rfl hne, fun _ => rfl⟩
  · by_cases hbz : b = (h.header y).next
    · rw [hbz, hheadz]
      exact ⟨rfl, fun _ => rfl, fun hne => absurd rfl hne⟩
    · have hax := hblocks.apart hb hxmem hbx
      have haz := hblocks.apart hb hzmem hbz
      rw [hframe b (by lia) (by lia)]
      exact ⟨rfl, fun _ => rfl, fun _ => rfl⟩

theorem Blocks.combine (hblocks : Blocks a h bs) (hbs : bs = before ++ x :: y :: after) :
    Blocks a (combine h x y) (before ++ x :: after) := by
  have hsize := twelve_le_sizeofStructMem a
  rcases hblocks.combine_fields hbs with ⟨hxz, hzx, hframe⟩
  rcases combine_static h x y with ⟨hptr, hend, hmem, -, -⟩
  rcases hblocks.around hbs with ⟨-, -, hbefore, hxgap, -, -⟩
  have hbs' : bs = (before ++ [x]) ++ y :: after := by
    rw [hbs]
    simp
  rcases hblocks.around hbs' with ⟨rest, hrest, hbefore', hygap, hbehind, hzle⟩
  have hxy := hbefore' x (by simp)
  generalize (h.header y).next = z at *
  have hchain := hblocks.chain
  rw [hbs, show before ++ x :: y :: after ++ [h.heapEnd] =
    before ++ x :: y :: z :: rest by simp [← hrest]] at hchain
  have hin : ∀ b ∈ before ++ x :: z :: rest, b ∈ bs ++ [h.heapEnd] := by
    intro b hb
    rw [← hrest] at hb
    rw [hbs]
    simp only [append_assoc, cons_append, mem_append, mem_cons] at hb ⊢
    exact hb.imp_right (Or.imp_right .inr)
  constructor
  · rw [hend, hmem, hblocks.heapEnd_eq]
  · rw [hptr, hend]
    exact hblocks.fits
  · rw [hptr]
    exact hblocks.heapPtr_dvd
  · have hfirst := hblocks.first
    rw [hbs] at hfirst
    cases before with
    | nil | cons b before => simpa using hfirst
  · rw [hend, append_assoc, cons_append, hrest]
    exact chain_merge (by lia) hchain ⟨hxz, by lia, fun _ => hzx⟩ fun b hb => (hframe b (hin b hb)).2
  · rw [hend]
    intro b hb
    apply hblocks.aligned b
    rw [hbs]
    simp only [append_assoc, cons_append, mem_append, mem_cons] at hb ⊢
    exact hb.imp_right (Or.imp_right .inr)
  · rw [(hframe 0 (mem_append_left _ hblocks.zero_mem)).2.2 (by lia)]
    exact hblocks.prev_first
  · rw [hend, (hframe h.heapEnd (by simp)).2.1 (by lia)]
    exact hblocks.next_end
  · rw [hend, (hframe h.heapEnd (by simp)).1]
    exact hblocks.used_end

theorem insertBlock_static (a : AlignSize) (h : Heap) (ptr n : ℕ) :
    (insertBlock a h ptr n).heapPtr = h.heapPtr ∧ (insertBlock a h ptr n).heapEnd = h.heapEnd ∧
      (insertBlock a h ptr n).memSizeAligned = h.memSizeAligned ∧
      (insertBlock a h ptr n).lfree = h.lfree ∧ (insertBlock a h ptr n).usedMem = h.usedMem ∧
      (insertBlock a h ptr n).maxMem = h.maxMem := by
  unfold insertBlock
  simp only
  split_ifs <;> exact ⟨rfl, rfl, rfl, rfl, rfl, rfl⟩

theorem insertBlock_header {n : ℕ} (hz : (h.header ptr).next = z)
    (hlast : h.heapEnd = h.memSizeAligned + sizeofStructMem a)
    (hptrn : ptr + 12 ≤ n) (hnz : n + 12 ≤ z) (hzlt : z < 4294967296) :
    let h' := insertBlock a h ptr n
    h'.header ptr = { h.header ptr with next := n } ∧
      h'.header n = ⟨(h.header n).magic, 0, z, ptr⟩ ∧
      (h'.header z = if z ≠ h.heapEnd then { h.header z with prev := n } else h.header z) ∧
      ∀ b, (b + 12 ≤ ptr ∨ ptr + 12 ≤ b) → (b + 12 ≤ n ∨ n + 12 ≤ b) →
        (b + 12 ≤ z ∨ z + 12 ≤ b) → h'.header b = h.header b := by
  intro h'
  have hread : ((h.setUsed n 0).header ptr).next = z := by
    rw [header_setUsed_of_apart _ (by lia), hz]
  generalize hwritten : (((h.setUsed n 0).setNext n z).setPrev n ptr).setNext ptr n = h₁
  have hn : h₁.header n = ⟨(h.header n).magic, 0, z, ptr⟩ := by
    rw [← hwritten, header_setNext_of_apart _ (by lia),
      header_setPrev _ (by lia), header_setNext _ hzlt,
      header_setUsed _ (by lia)]
  have hptr : h₁.header ptr = { h.header ptr with next := n } := by
    rw [← hwritten, header_setNext _ (by lia),
      header_setPrev_of_apart _ (by lia), header_setNext_of_apart _ (by lia),
      header_setUsed_of_apart _ (by lia)]
  have hother : ∀ b, (b + 12 ≤ ptr ∨ ptr + 12 ≤ b) → (b + 12 ≤ n ∨ n + 12 ≤ b) →
      h₁.header b = h.header b := by
    intro b hbptr hbn
    rw [← hwritten, header_setNext_of_apart _ (by lia),
      header_setPrev_of_apart _ (by lia), header_setNext_of_apart _ (by lia),
      header_setUsed_of_apart _ (by lia)]
  have hsize : h₁.memSizeAligned = h.memSizeAligned := by
    rw [← hwritten]
    rfl
  have hinsert : h' = if z ≠ h.heapEnd then h₁.setPrev z n else h₁ := by
    have hnext : (h₁.header n).next = z := by rw [hn]
    show insertBlock a h ptr n = _
    unfold insertBlock
    simp only [hread, hwritten, hnext, hsize, ← hlast]
  rw [hinsert]
  split_ifs with hend
  · refine ⟨?_, ?_, ?_, ?_⟩
    · rw [header_setPrev_of_apart _ (by lia), hptr]
    · rw [header_setPrev_of_apart _ (by lia), hn]
    · rw [header_setPrev _ (by lia), hother z (by lia) (by lia)]
    · intro b hbptr hbn hbz
      rw [header_setPrev_of_apart _ (by lia), hother b hbptr hbn]
  · exact ⟨hptr, hn, hother z (by lia) (by lia), fun b hbptr hbn _ => hother b hbptr hbn⟩

theorem Blocks.insertBlock_fields
    {n : ℕ} (hblocks : Blocks a h bs) (hbs : bs = before ++ x :: after)
    (hxn : x + sizeofStructMem a ≤ n) (hnz : n + sizeofStructMem a ≤ (h.header x).next) :
    let h' := insertBlock a h x n
    (h'.header x).next = n ∧ (h'.header n).used = 0 ∧
      (h'.header n).next = (h.header x).next ∧ (h'.header n).prev = x ∧
      ((h.header x).next ≠ h.heapEnd → (h'.header (h.header x).next).prev = n) ∧
      ∀ b ∈ bs ++ [h.heapEnd], (h'.header b).used = (h.header b).used ∧
        (b ≠ x → (h'.header b).next = (h.header b).next) ∧
        (b ≠ (h.header x).next → (h'.header b).prev = (h.header b).prev) := by
  have hsize := twelve_le_sizeofStructMem a
  have hfits := hblocks.fits
  intro h'
  rcases hblocks.around hbs with ⟨rest, hrest, hbefore, -, hbehind, hzle⟩
  rcases insertBlock_header (rfl : (h.header x).next = _) hblocks.heapEnd_eq
    (by lia : x + 12 ≤ n) (by lia) (by lia) with ⟨hheadx, hheadn, hheadz, hframe⟩
  refine ⟨by rw [hheadx], by rw [hheadn], by rw [hheadn], by rw [hheadn], ?_, ?_⟩
  · intro hne
    rw [hheadz, if_pos hne]
  · intro b hb
    by_cases hbx : b = x
    · rw [hbx, hheadx]
      exact ⟨rfl, fun hne => absurd rfl hne, fun _ => rfl⟩
    · by_cases hbz : b = (h.header x).next
      · rw [hbz, hheadz]
        split_ifs
        · exact ⟨rfl, fun _ => rfl, fun hne => absurd rfl hne⟩
        · exact ⟨rfl, fun _ => rfl, fun _ => rfl⟩
      · have hside : b + sizeofStructMem a ≤ x ∨ (h.header x).next + sizeofStructMem a ≤ b := by
          rw [hbs, append_assoc, cons_append, hrest] at hb
          simp only [mem_append, mem_cons] at hb
          rcases hb with hb | hb | hb | hb
          · exact .inl (hbefore b hb)
          · contradiction
          · contradiction
          · exact .inr (hbehind b hb)
        rw [hframe b (by lia) (by lia) (by lia)]
        exact ⟨rfl, fun _ => rfl, fun _ => rfl⟩

theorem Blocks.insertBlock {n : ℕ} (hblocks : Blocks a h bs) (hbs : bs = before ++ x :: after)
    (hxn : x + sizeofStructMem a ≤ n)
    (hnz : n + sizeofStructMem a ≤ (h.header x).next) (hdvd : a.bytes ∣ n) :
    Blocks a (insertBlock a h x n) (before ++ x :: n :: after) := by
  have hsize := twelve_le_sizeofStructMem a
  rcases hblocks.insertBlock_fields hbs hxn hnz with ⟨hnextx, -, hnextn, hprevn, hprevz, hframe⟩
  rcases insertBlock_static a h x n with ⟨hptr, hlast, hmem, -, -, -⟩
  rcases hblocks.around hbs with ⟨rest, hrest, hbefore, -, hbehind, hzle⟩
  generalize (h.header x).next = z at *
  have hchain := hblocks.chain
  rw [hbs, show before ++ x :: after ++ [h.heapEnd] = before ++ x :: z :: rest by
    simp [← hrest]] at hchain
  have hin : ∀ b ∈ before ++ x :: z :: rest, b ∈ bs ++ [h.heapEnd] := by
    intro b hb
    rw [← hrest] at hb
    rw [hbs]
    simpa using hb
  constructor
  · rw [hlast, hmem, hblocks.heapEnd_eq]
  · rw [hptr, hlast]
    exact hblocks.fits
  · rw [hptr]
    exact hblocks.heapPtr_dvd
  · have hfirst := hblocks.first
    rw [hbs] at hfirst
    cases before with
    | nil | cons b before => simpa using hfirst
  · rw [hlast, show before ++ x :: n :: after ++ [h.heapEnd] =
      before ++ x :: n :: z :: rest by simp [← hrest]]
    exact chain_split (by lia) hchain ⟨hnextx, hxn, fun _ => hprevn⟩ ⟨hnextn, hnz, hprevz⟩
      fun b hb => (hframe b (hin b hb)).2
  · rw [hlast]
    intro b hb
    simp only [append_assoc, cons_append, mem_append, mem_cons] at hb
    have hkeep := hblocks.aligned b
    rw [hbs] at hkeep
    simp only [append_assoc, cons_append, mem_append, mem_cons] at hkeep
    rcases hb with hb | hb | hb | hb
    · exact hkeep (.inl hb)
    · exact hkeep (.inr (.inl hb))
    · exact hb ▸ hdvd
    · exact hkeep (.inr (.inr hb))
  · rw [(hframe 0 (mem_append_left _ hblocks.zero_mem)).2.2 (by lia)]
    exact hblocks.prev_first
  · rw [hlast, (hframe h.heapEnd (by simp)).2.1 (by lia)]
    exact hblocks.next_end
  · rw [hlast, (hframe h.heapEnd (by simp)).1]
    exact hblocks.used_end

end RtThread.SmallMem
