import RtThread.SmallMemData

/-!
# Requests of every size to the small-memory heap

For which requests `rt_malloc` finds a block, and which answers of `rt_malloc`,
`rt_realloc` and `rt_calloc` are as large as the caller asked for.  The search
of `rt_malloc` starts at `lfree` and stops `size` bytes below
`mem_size_aligned`, so a block outside this range is never taken.
-/

namespace RtThread.SmallMem

open List Option Word

variable {a : AlignSize} {h h' : Heap} {s : HeapState} {bs before : List ℕ} {x n size : ℕ}

def Fits (a : AlignSize) (h : Heap) (size x : ℕ) : Prop :=
  (h.header x).used = 0 ∧ size ≤ (h.header x).next - (x + sizeofStructMem a)

def Searched (h : Heap) (size x : ℕ) : Prop :=
  h.lfree ≤ x ∧ x + size < h.memSizeAligned

/-- `RT_ALIGN(n)`, but at least `MIN_SIZE_ALIGNED`. -/
def blockSize (a : AlignSize) (n : ℕ) : ℕ := max (rtAlign a n) (minSizeAligned a)

def Servable (a : AlignSize) (h : Heap) (bs : List ℕ) (n : ℕ) : Prop :=
  n ≠ 0 ∧ rtAlign a n ≤ h.memSizeAligned ∧
    ∃ x ∈ bs, Fits a h (blockSize a n) x ∧ Searched h (blockSize a n) x

theorem dataSize_eq (a : AlignSize) (n : ℕ) : dataSize a (rtAlign a n) = blockSize a n := by
  unfold dataSize blockSize
  split_ifs with hsmall
  · exact (max_eq_right hsmall.le).symm
  · exact (max_eq_left (not_lt.mp hsmall)).symm

section

variable (hblocks : Blocks a h bs)
include hblocks

theorem Blocks.fits_iff (hx : x ∈ bs) : Fits a h size x ↔
      (h.header x).used = 0 ∧ x + sizeofStructMem a + size ≤ (h.header x).next := by
  rcases append_of_mem hx with ⟨before, after, hbs⟩
  rcases hblocks.around hbs with ⟨-, -, -, hgap, -, -⟩
  unfold Fits
  have hroom : size ≤ (h.header x).next - (x + sizeofStructMem a) ↔
      x + sizeofStructMem a + size ≤ (h.header x).next := by omega
  rw [hroom]

theorem Blocks.le_memSizeAligned_of_fits
    (hx : x ∈ bs) (hfits : Fits a h size x) :
    size ≤ h.memSizeAligned := by
  have hroom := ((hblocks.fits_iff hx).mp hfits).2
  have hend := hblocks.heapEnd_eq
  rcases append_of_mem hx with ⟨before, after, hbs⟩
  rcases hblocks.around hbs with ⟨-, -, -, -, -, hle⟩
  omega

theorem searchFree_searched (hsize : size ≤ h.memSizeAligned)
    {fuel found : ℕ} (hx : x ∈ bs ++ [h.heapEnd]) (hlow : h.lfree ≤ x)
    (hfound : searchFree a h size fuel x = some (some found)) :
    Searched h size found := by
  have hend := hblocks.heapEnd_eq
  have hfits := hblocks.fits
  have hstop : sub32 h.memSizeAligned size = h.memSizeAligned - size :=
    sub32_eq_of_le hsize (by lia)
  induction fuel generalizing x with
  | zero => simp [searchFree] at hfound
  | succ fuel ih =>
    rw [searchFree, hstop] at hfound
    split_ifs at hfound with hbound hfit
    · have heq : x = found := some.inj (some.inj hfound)
      rw [← heq]
      exact ⟨hlow, by lia⟩
    · apply ih (hblocks.next_mem hx) _ hfound
      have hmem : x ∈ bs := by
        rcases mem_append.mp hx with hmem | hmem
        · exact hmem
        · have heq := mem_singleton.mp hmem
          lia
      rcases append_of_mem hmem with ⟨before, after, hbs⟩
      rcases hblocks.around hbs with ⟨-, -, -, hgap, -, -⟩
      lia
    · simp at hfound

theorem searchFree_ne_none {fuel target : ℕ} {suffix : List ℕ}
    (hsplit : bs ++ [h.heapEnd] = before ++ x :: suffix) (htarget : target ∈ x :: suffix)
    (hmem : target ∈ bs) (hfits : Fits a h size target) (hstop : target + size < h.memSizeAligned) :
    searchFree a h size fuel x ≠ some none := by
  have hend := hblocks.heapEnd_eq
  have hroom := hblocks.fits
  have hbound : sub32 h.memSizeAligned size = h.memSizeAligned - size :=
    sub32_eq_of_le (by lia) (by lia)
  induction suffix generalizing before x fuel with
  | nil =>
    have hx := Blocks.suffix_last hsplit
    rw [mem_singleton.mp htarget, hx] at hmem
    exact absurd hmem hblocks.end_not_mem
  | cons y suffix ih =>
    have hle : x ≤ target := by
      have hpair := pairwise_of_chain hblocks.chain
      rw [hsplit, pairwise_append, pairwise_cons] at hpair
      rcases mem_cons.mp htarget with heq | hmem
      · exact heq.ge
      · have hbehind := hpair.2.1.1 target hmem
        lia
    cases fuel with
    | zero => simp [searchFree]
    | succ fuel =>
      rw [searchFree, if_pos (by lia)]
      split_ifs with hfit
      · simp
      · rw [(hblocks.suffix_next hsplit).1]
        have hsplit' : bs ++ [h.heapEnd] = (before ++ [x]) ++ y :: suffix := by
          rw [hsplit]
          simp
        apply ih hsplit'
        apply mem_of_ne_of_mem _ htarget
        intro heq
        -- The target itself would have been taken.
        rcases (hblocks.fits_iff hmem).mp hfits with ⟨hfree, hnext⟩
        rcases append_of_mem hmem with ⟨left, right, hbs⟩
        rcases hblocks.around hbs with ⟨-, -, -, -, -, hlast⟩
        apply hfit
        rw [← heq, add32_eq_of_lt (by lia), sub32_eq_of_le (by lia) (by lia)]
        exact ⟨hfree, by lia⟩

end

theorem HeapInv.searchFree_ne_none (hinv : HeapInv a h bs) {fuel : ℕ}
    (hx : x ∈ bs) (hfits : Fits a h size x) (hsearched : Searched h size x) :
    searchFree a h size fuel h.lfree ≠ some none := by
  rcases append_of_mem hinv.lfree_mem with ⟨before, suffix, hsplit⟩
  apply SmallMem.searchFree_ne_none hinv.blocks hsplit _ hx hfits hsearched.2
  have hmem : x ∈ before ++ h.lfree :: suffix := by
    rw [← hsplit]
    exact mem_append_left _ hx
  rcases mem_append.mp hmem with hleft | hright
  · have hpair := pairwise_of_chain hinv.blocks.chain
    rw [hsplit, pairwise_append] at hpair
    have hbelow := hpair.2.2 x hleft h.lfree mem_cons_self
    have hsize := twelve_le_sizeofStructMem a
    have hlow := hsearched.1
    omega
  · exact hright

theorem rtMalloc_eq (hpos : n ≠ 0) (hsize : rtAlign a n ≤ h.memSizeAligned) : rtMalloc a h n =
      match searchFree a h (blockSize a n) (h.heapEnd + 1) h.lfree with
      | none => none
      | some none => some (h, rtNull)
      | some (some x) =>
        match moveLfree (takeBlock a h x (blockSize a n)) x with
        | none => none
        | some h => some (h, h.heapPtr + x + sizeofStructMem a) := by
  rw [← dataSize_eq, rtMalloc, if_neg hpos]
  exact if_neg (not_lt.mpr hsize)

theorem HeapInv.rtMalloc_ne_null_iff (hinv : HeapInv a h bs) :
    (∃ result, rtMalloc a h n = some result ∧ result.2 ≠ rtNull) ↔ Servable a h bs n := by
  have htwelve := twelve_le_sizeofStructMem a
  constructor
  · intro hresult
    rcases hresult with ⟨result, hmalloc, hne⟩
    have hpos : n ≠ 0 := by
      intro hzero
      rw [rtMalloc, if_pos hzero] at hmalloc
      exact hne (congrArg Prod.snd (some.inj hmalloc)).symm
    have hsize : rtAlign a n ≤ h.memSizeAligned := by
      by_contra hlarge
      unfold rtMalloc at hmalloc
      simp only [if_neg hpos, if_pos (not_le.mp hlarge)] at hmalloc
      exact hne (congrArg Prod.snd (some.inj hmalloc)).symm
    rw [rtMalloc_eq hpos hsize] at hmalloc
    split at hmalloc
    · simp at hmalloc
    · exact absurd (congrArg Prod.snd (some.inj hmalloc)).symm hne
    · next found hfound =>
        rcases searchFree_sound hinv.blocks hinv.lfree_mem hfound with ⟨hmem, hfree, hroom⟩
        have hfits := (hinv.blocks.fits_iff hmem).mpr ⟨hfree, hroom⟩
        have hle := hinv.blocks.le_memSizeAligned_of_fits hmem hfits
        exact ⟨hpos, hsize, found, hmem, hfits,
          searchFree_searched hinv.blocks hle hinv.lfree_mem le_rfl hfound⟩
  · intro hservable
    rcases hservable with ⟨hpos, hsize, x, hx, hfits, hsearched⟩
    have hle := hinv.blocks.le_memSizeAligned_of_fits hx hfits
    have hmin : minSizeAligned a ≤ h.memSizeAligned :=
      (le_max_right (rtAlign a n) (minSizeAligned a)).trans hle
    rcases rtMalloc_total hinv hmin n with ⟨result, hmalloc⟩
    refine ⟨result, hmalloc, ?_⟩
    intro hnull
    rcases rtMalloc_spec hinv hmalloc with hfail | ⟨bs', y, hy, -⟩
    · rw [rtMalloc_eq hpos hsize] at hmalloc
      split at hmalloc
      · simp at hmalloc
      · next hnone => exact hinv.searchFree_ne_none hx hfits hsearched hnone
      · next found hfound =>
          have hfound' := hfound
          rw [← dataSize_eq] at hfound'
          rcases takeBlock_allocates hinv hfound' with ⟨h', bs', hmove, halloc⟩
          rw [dataSize_eq] at hmove
          simp only [hmove] at hmalloc
          have hp := congrArg Prod.snd (some.inj hmalloc)
          rw [hnull, rtNull] at hp
          omega
    · rw [hnull, dataPtr, rtNull] at hy
      omega

/-- `rt_malloc n` returns `RT_NULL` only if every free block has a data area of less
than `RT_ALIGN(n)` or `MIN_SIZE_ALIGNED` bytes. -/
def Complete (a : AlignSize) (h : Heap) (bs : List ℕ) (n : ℕ) : Prop :=
  ∀ h', rtMalloc a h n = some (h', rtNull) → ∀ x ∈ bs, (h.header x).used = 0 →
      (h.header x).next - (x + sizeofStructMem a) < max (rtAlign a n) (minSizeAligned a)

/-- Where a block fits, the search from `lfree` comes to one. -/
def FoundIfAny (a : AlignSize) (h : Heap) (bs : List ℕ) (size : ℕ) : Prop :=
  (∃ x ∈ bs, Fits a h size x) → ∃ x ∈ bs, Fits a h size x ∧ Searched h size x

theorem Blocks.memSizeAligned_dvd (hblocks : Blocks a h bs) : a.bytes ∣ h.memSizeAligned := by
  have hend := hblocks.aligned h.heapEnd (by simp)
  rw [hblocks.heapEnd_eq] at hend
  exact (Nat.dvd_add_left (dvd_sizeofStructMem a)).mp hend

theorem Blocks.rtAlign_le (hblocks : Blocks a h bs) (hn : n ≤ h.memSizeAligned) :
    rtAlign a n ≤ h.memSizeAligned := by
  have hbytes := bytes_le_sizeofStructMem a
  have hfits := hblocks.fits
  have hend := hblocks.heapEnd_eq
  have hlt := rtAlign_lt_add a (by lia : n + a.bytes ≤ 4294967296)
  rcases hblocks.memSizeAligned_dvd with ⟨k, hk⟩
  have hdvd : a.bytes ∣ rtAlign a n := dvd_rtAlign a
  rcases hdvd with ⟨j, hj⟩
  rw [hj, hk]
  apply Nat.mul_le_mul_left
  apply Nat.le_of_lt_succ
  apply lt_of_mul_lt_mul_left _ (Nat.zero_le a.bytes)
  rw [Nat.mul_succ]
  lia

/-- A request is served whenever it can be, if the search finds a fitting block. -/
theorem HeapInv.complete_iff (hinv : HeapInv a h bs) (hpos : 1 ≤ n) (hn : n ≤ h.memSizeAligned) :
    Complete a h bs n ↔ FoundIfAny a h bs (blockSize a n) := by
  have hsize := hinv.blocks.rtAlign_le hn
  constructor
  · intro hcomplete hany
    rcases hany with ⟨x, hx, hfits⟩
    have hle := hinv.blocks.le_memSizeAligned_of_fits hx hfits
    have hmin : minSizeAligned a ≤ h.memSizeAligned :=
      (le_max_right (rtAlign a n) (minSizeAligned a)).trans hle
    rcases rtMalloc_total hinv hmin n with ⟨⟨h', p⟩, hmalloc⟩
    have hserved : ∃ result, rtMalloc a h n = some result ∧ result.2 ≠ rtNull := by
      refine ⟨(h', p), hmalloc, ?_⟩
      intro hnull
      rw [show p = rtNull from hnull] at hmalloc
      have hsmall := hcomplete h' hmalloc x hx hfits.1
      exact absurd hfits.2 (not_le.mpr hsmall)
    exact (hinv.rtMalloc_ne_null_iff.mp hserved).2.2
  · intro hfound h' hmalloc x hx hfree
    by_contra hlarge
    have hservable : Servable a h bs n := ⟨by omega, hsize, hfound ⟨x, hx, hfree, not_lt.mp hlarge⟩⟩
    rcases hinv.rtMalloc_ne_null_iff.mpr hservable with ⟨result, hresult, hne⟩
    rw [hmalloc] at hresult
    exact hne (congrArg Prod.snd (some.inj hresult)).symm

/-- In every reachable heap `rt_malloc` refuses a request which it could serve exactly
when all the large enough blocks lie below `lfree` or within `size` bytes of the end.
Calls of `rt_malloc`, `rt_realloc` and `rt_free` are not restricted. -/
theorem malloc_complete_iff (a : AlignSize) {s : HeapState}
    (hreach : (accessSystem a 0).Reachable (FillFits a) s) : ∃ bs, ChainIntact a s bs ∧
      ∀ n : UInt32, 1 ≤ n.toNat → n.toNat ≤ s.heap.memSizeAligned → (Complete a s.heap bs n.toNat ↔
          FoundIfAny a s.heap bs (blockSize a n.toNat)) := by
  rcases owned_of_accesses hreach with ⟨⟨bs, howned⟩, -⟩
  exact ⟨bs, howned.chainIntact, fun n hpos hn => howned.inv.complete_iff hpos hn⟩

theorem malloc_complete_after_malloc :
    ∃ s, (accessSystem wordAlign 0).Reachable (FillFits wordAlign) s ∧ s.live = [0x2000000c] ∧
      ∃ bs, ChainIntact wordAlign s bs ∧
        ∀ n : UInt32, 1 ≤ n.toNat → n.toNat ≤ s.heap.memSizeAligned →
          (Complete wordAlign s.heap bs n.toNat ↔
            FoundIfAny wordAlign s.heap bs (blockSize wordAlign n.toNat)) := by
  have hrun : (sampleRun (fun h call => call.FillFits wordAlign h) [.malloc 100]).map
      HeapState.live = some [0x2000000c] := by decide +kernel
  rcases map_eq_some_iff.mp hrun with ⟨s, hs, hlive⟩
  have hreach := reachable_accesses (reachable_sampleRun (Nat.zero_le 1000) hs)
  exact ⟨s, hreach, hlive, malloc_complete_iff wordAlign hreach⟩

theorem ChainIntact.zero_mem (hintact : ChainIntact a s bs) : 0 ∈ bs := by
  have hfirst := hintact.first
  cases bs with
  | nil => simp at hfirst
  | cons b bs =>
    simp only [head?_cons, some.injEq] at hfirst
    simp [hfirst]

/-- The only block of a new heap has 1000 data bytes, and a request for 1000 bytes is
refused: the loop would have to run with `ptr` equal to its bound. -/
theorem not_malloc_complete_fresh :
    ∃ s, (accessSystem wordAlign 0).Reachable (FillFits wordAlign) s ∧
      ∀ bs, ChainIntact wordAlign s bs →
        ¬∀ n : UInt32, 1 ≤ n.toNat → n.toNat ≤ s.heap.memSizeAligned →
          Complete wordAlign s.heap bs n.toNat := by
  have hrun : (sampleRun (fun h call => call.FillFits wordAlign h) []).map
      (fun s => ((rtMalloc wordAlign s.heap 1000).map Prod.snd,
        (s.heap.header 0).used, (s.heap.header 0).next, s.heap.memSizeAligned)) =
      some (some rtNull, 0, 1012, 1000) := by decide +kernel
  rcases map_eq_some_iff.mp hrun with ⟨s, hs, hfields⟩
  simp only [Prod.mk.injEq] at hfields
  rcases hfields with ⟨hmalloc, hfree, hnext, hsize⟩
  refine ⟨s, reachable_accesses (reachable_sampleRun (Nat.zero_le 1000) hs), ?_⟩
  intro bs hintact hcomplete
  rcases map_eq_some_iff.mp hmalloc with ⟨⟨h', p⟩, hresult, hp⟩
  rw [show p = rtNull from hp] at hresult
  have hsmall := hcomplete 1000 (by decide) hsize.ge h' hresult 0 hintact.zero_mem hfree
  rw [hnext] at hsmall
  revert hsmall
  decide

def dataBytes (a : AlignSize) (h : Heap) (p : ℕ) : ℕ := dataLength a h (blockOf a h p)

def Enough (a : AlignSize) (n : ℕ) (answer : Option (Heap × ℕ)) : Prop :=
  ∀ result, answer = some result → result.2 ≠ rtNull → n ≤ dataBytes a result.1 result.2

/-- `RT_ALIGN(n)` wraps. -/
def RoundingWraps (a : AlignSize) (n : ℕ) : Prop := 4294967296 < n + a.bytes

theorem dataBytes_dataPtr (hptr : h'.heapPtr = h.heapPtr) (x : ℕ) :
    dataBytes a h' (dataPtr a h x) = dataLength a h' x := by
  have hsame : dataPtr a h x = dataPtr a h' x := by rw [dataPtr, dataPtr, hptr]
  rw [dataBytes, hsame, blockOf_dataPtr]

theorem HeapInv.dataLength_lt (hinv : HeapInv a h bs) (hx : x ∈ usedBlocks h bs) :
    dataLength a h x + a.bytes < 4294967296 := by
  have hlength := hinv.dataLength_eq hx
  have hbytes := bytes_le_sizeofStructMem a
  have hfits := hinv.blocks.fits
  omega

theorem Allocates.dataLength_le {bs' : List ℕ} (halloc : Allocates a h bs h' bs' x size) :
    size ≤ dataLength a h' x := by
  have hroom := halloc.room
  unfold dataLength
  omega

theorem HeapInv.eq_null_of_not_servable {result : Heap × ℕ} (hinv : HeapInv a h bs)
    (hservable : ¬Servable a h bs n)
    (hmalloc : rtMalloc a h n = some result) : result.2 = rtNull := by
  by_contra hne
  exact hservable (hinv.rtMalloc_ne_null_iff.mp ⟨result, hmalloc, hne⟩)

/-- A block is large enough unless the rounding of its size wraps around. -/
theorem HeapInv.malloc_enough_iff (hinv : HeapInv a h bs) :
    Enough a n (rtMalloc a h n) ↔ ¬(RoundingWraps a n ∧ Servable a h bs n) := by
  constructor
  · intro henough hwrong
    rcases hwrong with ⟨hwraps, hservable⟩
    rcases hinv.rtMalloc_ne_null_iff.mpr hservable with ⟨result, hmalloc, hne⟩
    rcases rtMalloc_spec hinv hmalloc with hfail | ⟨bs', y, hq, halloc⟩
    · exact hne (congrArg Prod.snd hfail)
    · have hle := henough result hmalloc hne
      rw [hq, dataBytes_dataPtr halloc.updates.heapPtr_eq] at hle
      have hlt := halloc.updates.inv.dataLength_lt halloc.mem_used
      unfold RoundingWraps at hwraps
      omega
  · intro hright result hmalloc hne
    by_cases hwraps : RoundingWraps a n
    · have hservable : ¬Servable a h bs n := fun hservable => hright ⟨hwraps, hservable⟩
      exact absurd (hinv.eq_null_of_not_servable hservable hmalloc) hne
    · rcases rtMalloc_spec hinv hmalloc with hfail | ⟨bs', y, hq, halloc⟩
      · exact absurd (congrArg Prod.snd hfail) hne
      · rw [hq, dataBytes_dataPtr halloc.updates.heapPtr_eq]
        exact (le_rtAlign a (not_lt.mp hwraps)).trans halloc.dataLength_le

theorem rtMalloc_zero (a : AlignSize) (h : Heap) : rtMalloc a h 0 = some (h, rtNull) :=
  if_pos rfl

theorem HeapInv.realloc_null_enough (hinv : HeapInv a h bs) (hn : n < 4294967296) :
    Enough a n (rtRealloc a h rtNull n) := by
  intro result hrealloc hne
  unfold rtRealloc at hrealloc
  simp only [if_true] at hrealloc
  split_ifs at hrealloc with hlarge
  · exact absurd (congrArg Prod.snd (some.inj hrealloc)).symm hne
  · by_cases hwraps : RoundingWraps a n
    · rw [rtAlign_eq_zero_of_wrap a hn hwraps, rtMalloc_zero] at hrealloc
      exact absurd (congrArg Prod.snd (some.inj hrealloc)).symm hne
    · rcases rtMalloc_spec hinv hrealloc with hfail | ⟨bs', y, hq, halloc⟩
      · exact absurd (congrArg Prod.snd hfail) hne
      · have hround := hinv.le_rtAlign_rtAlign (not_lt.mp hlarge)
        rw [hq, dataBytes_dataPtr halloc.updates.heapPtr_eq]
        exact ((le_rtAlign a (not_lt.mp hwraps)).trans hround).trans halloc.dataLength_le

/-- The blocks on which `rt_realloc` takes a request for no bytes for a resize. -/
def ResizesToNothing (a : AlignSize) (length : ℕ) : Prop :=
  length = 0 ∨ sizeofStructMem a + minSize < length

theorem HeapInv.realloc_enough_iff
    (hinv : HeapInv a h bs) (hx : x ∈ usedBlocks h bs) (hn : n < 4294967296) :
    Enough a n (rtRealloc a h (dataPtr a h x) n) ↔
      ¬(RoundingWraps a n ∧ ResizesToNothing a (dataLength a h x)) := by
  have hzero : RoundingWraps a n → rtAlign a n = 0 := rtAlign_eq_zero_of_wrap a hn
  constructor
  · intro henough hwrong
    rcases hwrong with ⟨hwraps, hresizes⟩
    have htotal : ∃ result, rtRealloc a h (dataPtr a h x) n = some result := by
      unfold rtRealloc
      simp only [hzero hwraps, rtMalloc_zero]
      split_ifs <;> exact ⟨_, rfl⟩
    rcases htotal with ⟨result, hrealloc⟩
    have hne : result.2 ≠ rtNull := by
      cases rtRealloc_path hinv hx hrealloc with
      | tooLarge hlarge =>
        rw [hzero hwraps] at hlarge
        cases hlarge
      | equal | cut => exact dataPtr_ne_null a h x
      | refused hne hroom =>
        rw [hzero hwraps] at hne hroom
        unfold ResizesToNothing at hresizes
        lia
      | moved => exact dataPtr_ne_null a h _
    rcases rtRealloc_carries hinv hx hrealloc with hfail | ⟨bs', y, hq, hcarries⟩
    · exact hne (congrArg Prod.snd hfail)
    · have hle := henough result hrealloc hne
      rw [hq, dataBytes_dataPtr hcarries.updates.heapPtr_eq] at hle
      have hlt := hcarries.updates.inv.dataLength_lt
        ((hcarries.updates.used_iff y).mpr (.inl rfl))
      unfold RoundingWraps at hwraps
      lia
  · intro hright result hrealloc hne
    rcases rtRealloc_carries hinv hx hrealloc with hfail | ⟨bs', y, hq, hcarries⟩
    · exact absurd (congrArg Prod.snd hfail) hne
    · by_cases hwraps : RoundingWraps a n
      · exfalso
        have hlength : ¬ResizesToNothing a (dataLength a h x) :=
          fun hresizes => hright ⟨hwraps, hresizes⟩
        unfold ResizesToNothing at hlength
        cases rtRealloc_path hinv hx hrealloc with
        | tooLarge => exact hne rfl
        | equal hequal =>
          rw [hzero hwraps] at hequal
          lia
        | cut _ hroom =>
          rw [hzero hwraps] at hroom
          lia
        | refused => exact hne rfl
        | moved hmalloc =>
          rw [hzero hwraps, rtMalloc_zero] at hmalloc
          have hnull := congrArg Prod.snd (some.inj hmalloc)
          exact dataPtr_ne_null a h _ hnull.symm
      · rw [hq, dataBytes_dataPtr hcarries.updates.heapPtr_eq]
        exact (le_rtAlign a (not_lt.mp hwraps)).trans hcarries.room

theorem HeapInv.calloc_enough_iff (hinv : HeapInv a h bs) (count size : ℕ) :
    Enough a (count * size) (rtCalloc a h count size) ↔
      ¬(RoundingWraps a (count * size) ∧ Servable a h bs (mul32 count size)) := by
  constructor
  · intro henough hwrong
    rcases hwrong with ⟨hwraps, hservable⟩
    rcases hinv.rtMalloc_ne_null_iff.mpr hservable with ⟨⟨h₁, q⟩, hmalloc, hne⟩
    rcases rtMalloc_spec hinv hmalloc with hfail | ⟨bs', y, hq, halloc⟩
    · exact hne (congrArg Prod.snd hfail)
    · -- The fill may clear the header, but it makes no field larger.
      generalize hfilled : h₁.memory.clear (q - h₁.heapPtr) (mul32 count size) = filled
      have hcalloc : rtCalloc a h count size = some ({ h₁ with memory := filled }, q) := by
        unfold rtCalloc
        simp only [hmalloc]
        rw [if_pos hne, hfilled]
      have hle := henough _ hcalloc hne
      have hptr : ({ h₁ with memory := filled } : Heap).heapPtr = h.heapPtr :=
        halloc.updates.heapPtr_eq
      have hnext : filled.load (y + 4) 4 ≤ h₁.memory.load (y + 4) 4 := by
        rw [← hfilled]
        exact h₁.memory.load_clear_le _ _ _ _
      have hlt := halloc.updates.inv.dataLength_lt halloc.mem_used
      rw [hq, dataBytes_dataPtr hptr] at hle
      unfold dataLength Heap.header at hle hlt
      unfold RoundingWraps at hwraps
      lia
  · intro hright result hcalloc hne
    by_cases hwraps : RoundingWraps a (count * size)
    · exfalso
      have hservable : ¬Servable a h bs (mul32 count size) :=
        fun hservable => hright ⟨hwraps, hservable⟩
      unfold rtCalloc at hcalloc
      cases hmalloc : rtMalloc a h (mul32 count size) with
      | none => simp [hmalloc] at hcalloc
      | some allocated =>
        have hnull := hinv.eq_null_of_not_servable hservable hmalloc
        simp only [hmalloc] at hcalloc
        rw [if_neg (by simp [hnull])] at hcalloc
        rw [← some.inj hcalloc] at hne
        exact hne hnull
    · have hround := not_lt.mp hwraps
      have hbytes := a.bytes_pos
      have hproduct : mul32 count size = count * size := mul32_eq_of_lt (by lia)
      have hfill : mul32 count size + a.bytes ≤ 4294967296 := by
        rw [hproduct]
        exact hround
      rcases rtCalloc_spec hinv hfill hcalloc with hfail | ⟨bs', y, hq, halloc⟩
      · exact absurd (congrArg Prod.snd hfail) hne
      · rw [hproduct] at halloc
        rw [hq, dataBytes_dataPtr halloc.updates.heapPtr_eq]
        exact (le_rtAlign a hround).trans halloc.dataLength_le

/-- When each request is answered with enough bytes. -/
structure EnoughIff (a : AlignSize) (s : HeapState) (bs : List ℕ) : Prop where
  malloc : ∀ n : UInt32, Enough a n.toNat (rtMalloc a s.heap n.toNat) ↔
      ¬(RoundingWraps a n.toNat ∧ Servable a s.heap bs n.toNat)
  realloc_null : ∀ n : UInt32, Enough a n.toNat (rtRealloc a s.heap rtNull n.toNat)
  realloc : ∀ p ∈ s.live, ∀ n : UInt32, Enough a n.toNat (rtRealloc a s.heap p n.toNat) ↔
      ¬(RoundingWraps a n.toNat ∧ ResizesToNothing a (dataBytes a s.heap p))
  calloc : ∀ count size : UInt32,
    Enough a (count.toNat * size.toNat) (rtCalloc a s.heap count.toNat size.toNat) ↔
      ¬(RoundingWraps a (count.toNat * size.toNat) ∧
        Servable a s.heap bs (mul32 count.toNat size.toNat))

/-- In every reachable heap an answer is too small exactly when the rounding of the
request wraps and a block is found or resized for the wrapped size. -/
theorem answers_enough_iff (a : AlignSize) {s : HeapState}
    (hreach : (accessSystem a 0).Reachable (FillFits a) s) :
    ∃ bs, ChainIntact a s bs ∧ EnoughIff a s bs := by
  rcases owned_of_accesses hreach with ⟨⟨bs, howned⟩, -⟩
  refine ⟨bs, howned.chainIntact, ?_⟩
  constructor
  · intro n
    exact howned.inv.malloc_enough_iff
  · intro n
    exact howned.inv.realloc_null_enough n.toNat_lt
  · intro p hp n
    rcases (howned.live_iff p).mp hp with ⟨x, hx, hpx⟩
    rw [hpx, dataBytes_dataPtr rfl]
    exact howned.inv.realloc_enough_iff hx n.toNat_lt
  · intro count size
    exact howned.inv.calloc_enough_iff count.toNat size.toNat

theorem answers_enough_after_malloc :
    ∃ s, (accessSystem wordAlign 0).Reachable (FillFits wordAlign) s ∧ s.live = [0x2000000c] ∧
      ∃ bs, ChainIntact wordAlign s bs ∧ EnoughIff wordAlign s bs := by
  have hrun : (sampleRun (fun h call => call.FillFits wordAlign h) [.malloc 100]).map
      HeapState.live = some [0x2000000c] := by decide +kernel
  rcases map_eq_some_iff.mp hrun with ⟨s, hs, hlive⟩
  have hreach := reachable_accesses (reachable_sampleRun (Nat.zero_le 1000) hs)
  exact ⟨s, hreach, hlive, answers_enough_iff wordAlign hreach⟩

/-- The size `0xFFFFFFFF` is aligned to zero. -/
theorem not_answers_enough : ∃ s, (accessSystem wordAlign 0).Reachable (FillFits wordAlign) s ∧
      ¬∀ n : UInt32, Enough wordAlign n.toNat (rtMalloc wordAlign s.heap n.toNat) := by
  have hrun : (sampleRun (fun h call => call.FillFits wordAlign h) []).map
      (fun s => (rtMalloc wordAlign s.heap 0xFFFFFFFF).map
        (fun result => (result.2, dataBytes wordAlign result.1 result.2))) =
      some (some (0x2000000c, 12)) := by decide +kernel
  rcases map_eq_some_iff.mp hrun with ⟨s, hs, hanswer⟩
  refine ⟨s, reachable_accesses (reachable_sampleRun (Nat.zero_le 1000) hs), ?_⟩
  intro henough
  rcases map_eq_some_iff.mp hanswer with ⟨result, hresult, hview⟩
  rw [Prod.mk.injEq] at hview
  have hle := henough 0xFFFFFFFF result hresult (by rw [hview.1]; decide)
  rw [hview.2] at hle
  revert hle
  decide

end RtThread.SmallMem
