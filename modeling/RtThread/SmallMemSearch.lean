import RtThread.SmallMemSizes

/-!
# The end of the search in `rt_malloc`

The bound of the loop is a difference of unsigned numbers.  It does not wrap as
long as the heap can hold one block of the least size; then the offsets grow to
the bound.  On a smaller heap the bound lies above `heap_end`, which links to
itself.
-/

namespace RtThread.SmallMem

open List Word

variable {a : AlignSize} {h : Heap} {bs before : List ℕ} {x n size : ℕ}

def visited (a : AlignSize) (h : Heap) (size : ℕ) : ℕ → ℕ → List ℕ
  | 0, _ => []
  | fuel + 1, ptr =>
    if ptr < sub32 h.memSizeAligned size then
      if (h.header ptr).used = 0 ∧
          sub32 (h.header ptr).next (add32 ptr (sizeofStructMem a)) ≥ size then
        [ptr]
      else ptr :: visited a h size fuel (h.header ptr).next
    else []

/-- `rt_malloc n` comes to its loop. -/
def Searches (a : AlignSize) (h : Heap) (n : ℕ) : Prop :=
  n ≠ 0 ∧ rtAlign a n ≤ h.memSizeAligned

/-- If `rt_malloc n` comes to its loop, the loop ends and looks at no block twice. -/
def SearchEnds (a : AlignSize) (h : Heap) (n : ℕ) : Prop :=
  Searches a h n →
    ∃ fuel result, searchFree a h (dataSize a (rtAlign a n)) fuel h.lfree = some result ∧
      (visited a h (dataSize a (rtAlign a n)) fuel h.lfree).Nodup

theorem visited_sublist
    (hblocks : Blocks a h bs) (hroom : size ≤ h.memSizeAligned) {suffix : List ℕ}
    (hsplit : bs ++ [h.heapEnd] = before ++ x :: suffix) (fuel : ℕ) :
    (visited a h size fuel x).Sublist (x :: suffix) := by
  induction suffix generalizing before x fuel with
  | nil =>
    have hx := Blocks.suffix_last hsplit
    have hend := hblocks.heapEnd_eq
    have hfits := hblocks.fits
    have hout : ¬x < sub32 h.memSizeAligned size := by
      rw [sub32_eq_of_le hroom (by lia)]
      lia
    cases fuel with
    | zero => exact nil_sublist _
    | succ fuel =>
      rw [visited, if_neg hout]
      exact nil_sublist _
  | cons y suffix ih =>
    cases fuel with
    | zero => exact nil_sublist _
    | succ fuel =>
      have hsplit' : bs ++ [h.heapEnd] = (before ++ [x]) ++ y :: suffix := by
        rw [hsplit]
        simp
      rw [visited, (hblocks.suffix_next hsplit).1]
      split_ifs
      · exact (nil_sublist _).cons_cons x
      · exact (ih hsplit' fuel).cons_cons x
      · exact nil_sublist _

theorem searchFree_endless (hblocks : Blocks a h bs) (hsmall : h.memSizeAligned < size)
    (hsize : size ≤ sizeofStructMem a) (fuel : ℕ) (hx : x ∈ bs ++ [h.heapEnd]) :
    searchFree a h size fuel x = none := by
  have hend := hblocks.heapEnd_eq
  have hfits := hblocks.fits
  have hbelow : ∀ {y}, y ∈ bs ++ [h.heapEnd] → y ≤ h.heapEnd := by
    intro y hy
    rcases mem_append.mp hy with hmem | hmem
    · rcases append_of_mem hmem with ⟨left, right, hbs⟩
      rcases hblocks.around hbs with ⟨-, -, -, hgap, -, hle⟩
      lia
    · exact (mem_singleton.mp hmem).le
  have hwrap : sub32 h.memSizeAligned size = h.memSizeAligned + 4294967296 - size := by
    unfold sub32
    lia
  induction fuel generalizing x with
  | zero => rfl
  | succ fuel ih =>
    have hbound : x < sub32 h.memSizeAligned size := by
      have hle := hbelow hx
      lia
    have hnot : ¬((h.header x).used = 0 ∧
        sub32 (h.header x).next (add32 x (sizeofStructMem a)) ≥ size) := by
      intro hfit
      have hfound : searchFree a h size 1 x = some (some x) := by
        rw [searchFree, if_pos hbound, if_pos hfit]
      rcases searchFree_sound hblocks hx hfound with ⟨-, -, hroom⟩
      have hle := hbelow (hblocks.next_mem hx)
      lia
    rw [searchFree, if_pos hbound, if_neg hnot]
    exact ih (hblocks.next_mem hx)

theorem dataSize_le (hroom : minSizeAligned a ≤ h.memSizeAligned) (hn : Searches a h n) :
    dataSize a (rtAlign a n) ≤ h.memSizeAligned := by
  rw [dataSize_eq]
  exact max_le hn.2 hroom

theorem HeapInv.not_searchEnds
    (hinv : HeapInv a h bs) (hn : Searches a h n) (hsmall : h.memSizeAligned < minSizeAligned a) :
    ¬SearchEnds a h n := by
  intro hends
  rcases hends hn with ⟨fuel, result, hresult, -⟩
  have hclamp : dataSize a (rtAlign a n) = minSizeAligned a := if_pos (hn.2.trans_lt hsmall)
  rw [hclamp, searchFree_endless hinv.blocks hsmall (minSizeAligned_eq a).le fuel
    hinv.lfree_mem] at hresult
  simp at hresult

/-- In every reachable heap the search of `rt_malloc` ends, after at most one look at each block,
unless the request comes to the loop of a heap which is smaller than the least block. -/
theorem search_ends_iff
    (a : AlignSize) {s : HeapState} (hreach : (accessSystem a 0).Reachable (FillFits a) s)
    (n : UInt32) : SearchEnds a s.heap n.toNat ↔
      ¬(Searches a s.heap n.toNat ∧ s.heap.memSizeAligned < minSizeAligned a) := by
  rcases owned_of_accesses hreach with ⟨⟨bs, howned⟩, -⟩
  have hblocks := howned.inv.blocks
  constructor
  · rintro hends ⟨hn, hsmall⟩
    exact howned.inv.not_searchEnds hn hsmall hends
  · intro hright hn
    have hroom := dataSize_le (not_lt.mp fun hsmall => hright ⟨hn, hsmall⟩) hn
    rcases append_of_mem howned.inv.lfree_mem with ⟨before, after, hsplit⟩
    rcases searchFree_total hblocks hroom hsplit le_rfl with ⟨result, hresult⟩
    have hnodup : (bs ++ [s.heap.heapEnd]).Nodup := by
      have hpos := twelve_le_sizeofStructMem a
      exact (pairwise_of_chain hblocks.chain).imp fun hxy => by lia
    rw [hsplit] at hnodup
    exact ⟨_, result, hresult,
      (visited_sublist hblocks hroom hsplit _).nodup (nodup_append.mp hnodup).2.1⟩

theorem search_ends_after_malloc :
    ∃ s, (accessSystem wordAlign 0).Reachable (FillFits wordAlign) s ∧
      s.live = [0x2000000c] ∧ ∀ n : UInt32, SearchEnds wordAlign s.heap n.toNat ↔
        ¬(Searches wordAlign s.heap n.toNat ∧ s.heap.memSizeAligned < minSizeAligned wordAlign) := by
  have hrun : (sampleRun (fun h call => call.FillFits wordAlign h) [.malloc 100]).map
      HeapState.live = some [0x2000000c] := by decide +kernel
  rcases Option.map_eq_some_iff.mp hrun with ⟨s, hs, hlive⟩
  have hreach := reachable_accesses (reachable_sampleRun (Nat.zero_le 1000) hs)
  exact ⟨s, hreach, hlive, search_ends_iff wordAlign hreach⟩

/-- A heap with room for nothing but the two headers. -/
theorem not_search_ends : ∃ s, (accessSystem wordAlign 0).Reachable (FillFits wordAlign) s ∧
      ¬∀ n : UInt32, SearchEnds wordAlign s.heap n.toNat := by
  have hinit : (rtSystemHeapInit wordAlign (fun _ => 0) 0x20000000 0x2000001c).map
      Heap.memSizeAligned = some 4 := by decide
  rcases Option.map_eq_some_iff.mp hinit with ⟨h, hh, hsize⟩
  have hstart : (accessSystem wordAlign 0).init ⟨h, []⟩ :=
    ⟨fun _ => 0, 0x20000000, 0x2000001c, hh, Nat.zero_le _, rfl⟩
  refine ⟨⟨h, []⟩, .start hstart, fun hends => ?_⟩
  have hinv := (heapInit_spec (by decide) hh).1
  refine hinv.not_searchEnds ⟨by decide, ?_⟩ ?_ (hends 1)
  · rw [hsize]
    decide
  · rw [hsize]
    decide

end RtThread.SmallMem
