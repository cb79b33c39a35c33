import RtThread.SmallMemResize
import RtThread.GuardedRun

/-!
# Runs of the small-memory heap

A run starts with `rt_system_heap_init` and goes on with calls of `rt_malloc`,
`rt_calloc`, `rt_realloc` and `rt_free`.  The state carries the pointers which
the application holds; only these are passed to `rt_realloc` and `rt_free`.
-/

namespace RtThread.SmallMem

open List Option Word

structure HeapState where
  heap : Heap
  live : List ℕ

inductive Call where
  | malloc (size : UInt32)
  | calloc (count size : UInt32)
  | realloc (rmem : ℕ) (newsize : UInt32)
  | free (rmem : ℕ)

def regrant (rmem p : ℕ) (live : List ℕ) : List ℕ :=
  if p = rtNull then live else p :: live.erase rmem

/-- One call; `none` is a call which does not return. -/
def execute (a : AlignSize) (s : HeapState) : Call → Option HeapState
  | .malloc size =>
    (rtMalloc a s.heap size.toNat).map fun result =>
      ⟨result.1, grant result.2 s.live⟩
  | .calloc count size =>
    (rtCalloc a s.heap count.toNat size.toNat).map fun result =>
      ⟨result.1, grant result.2 s.live⟩
  | .realloc rmem newsize =>
    (rtRealloc a s.heap rmem newsize.toNat).map fun result =>
      ⟨result.1, regrant rmem result.2 s.live⟩
  | .free rmem => some ⟨rtFree a s.heap rmem, s.live.erase rmem⟩

def Call.Legal (live : List ℕ) : Call → Prop
  | .realloc rmem _ => rmem = rtNull ∨ rmem ∈ live
  | .free rmem => rmem = rtNull ∨ rmem ∈ live
  | _ => True

def heapSystem (a : AlignSize) (minData : ℕ) : TransitionSystem HeapState Call where
  init s := ∃ (memory : Memory) (beginAddr endAddr : UInt32),
      rtSystemHeapInit a memory beginAddr.toNat endAddr.toNat = some s.heap ∧
        minData ≤ s.heap.memSizeAligned ∧ s.live = []
  step s call s' := call.Legal s.live ∧ execute a s call = some s'

structure Owned (a : AlignSize) (s : HeapState) (bs : List ℕ) : Prop where
  inv : HeapInv a s.heap bs
  live_nodup : s.live.Nodup
  live_iff : ∀ p, p ∈ s.live ↔ ∃ b ∈ usedBlocks s.heap bs, p = dataPtr a s.heap b

variable {a : AlignSize} {s s' : HeapState} {bs bs' : List ℕ} {x y : ℕ}

theorem dataPtr_injective (a : AlignSize) (h : Heap) : Function.Injective (dataPtr a h) := by
  intro x y hxy
  unfold dataPtr at hxy
  omega

theorem dataPtr_ne_null (a : AlignSize) (h : Heap) (x : ℕ) : dataPtr a h x ≠ rtNull := by
  have hsize := twelve_le_sizeofStructMem a
  unfold dataPtr rtNull
  omega

namespace Owned

theorem mem_live (howned : Owned a s bs) :
    dataPtr a s.heap x ∈ s.live ↔ x ∈ usedBlocks s.heap bs := by
  rw [howned.live_iff]
  constructor
  · rintro ⟨b, hb, heq⟩
    exact dataPtr_injective a s.heap heq ▸ hb
  · intro hx
    exact ⟨x, hx, rfl⟩

theorem null_not_mem (howned : Owned a s bs) : rtNull ∉ s.live := by
  intro hmem
  rcases (howned.live_iff rtNull).mp hmem with ⟨b, -, hb⟩
  exact dataPtr_ne_null a s.heap b hb.symm

theorem of_updates {heap' : Heap} {live' : List ℕ} {isUsed isKept : ℕ → Prop}
    (hupdates : Updates a s.heap bs heap' bs' isUsed isKept) (hnodup : live'.Nodup)
    (hlive : ∀ p, p ∈ live' ↔ ∃ b, isUsed b ∧ p = dataPtr a s.heap b) :
    Owned a ⟨heap', live'⟩ bs' := by
  have hptr : ∀ b, dataPtr a heap' b = dataPtr a s.heap b := by
    intro b
    rw [dataPtr, dataPtr, hupdates.heapPtr_eq]
  constructor
  · exact hupdates.inv
  · exact hnodup
  · intro p
    simp only [hlive p, hupdates.used_iff, hptr]

section

variable (howned : Owned a s bs)
include howned

theorem allocates {heap' : Heap} {size : ℕ}
    (halloc : Allocates a s.heap bs heap' bs' x size) :
    Owned a ⟨heap', grant (dataPtr a s.heap x) s.live⟩ bs' := by
  have hgrant : grant (dataPtr a s.heap x) s.live = dataPtr a s.heap x :: s.live :=
    if_neg (dataPtr_ne_null a s.heap x)
  rw [hgrant]
  apply of_updates halloc.updates
  · apply nodup_cons.mpr
    rw [howned.mem_live]
    exact ⟨halloc.fresh, howned.live_nodup⟩
  · intro p
    rw [mem_cons, howned.live_iff]
    constructor
    · rintro (hp | ⟨b, hb, hp⟩)
      · exact ⟨x, .inl rfl, hp⟩
      · exact ⟨b, .inr hb, hp⟩
    · rintro ⟨b, hb | hb, hp⟩
      · exact .inl (hb ▸ hp)
      · exact .inr ⟨b, hb, hp⟩

theorem mem_erase_live (p : ℕ) : p ∈ s.live.erase (dataPtr a s.heap x) ↔
      ∃ b, (b ∈ usedBlocks s.heap bs ∧ b ≠ x) ∧ p = dataPtr a s.heap b := by
  rw [howned.live_nodup.mem_erase_iff, howned.live_iff]
  constructor
  · rintro ⟨hne, b, hb, hp⟩
    refine ⟨b, ⟨hb, ?_⟩, hp⟩
    intro heq
    exact hne (heq ▸ hp)
  · rintro ⟨b, ⟨hb, hne⟩, hp⟩
    refine ⟨?_, b, hb, hp⟩
    rw [hp]
    exact fun heq => hne (dataPtr_injective a s.heap heq)

theorem releases {heap' : Heap} {isKept : ℕ → Prop}
    (hupdates : Updates a s.heap bs heap' bs' (fun b => b ∈ usedBlocks s.heap bs ∧ b ≠ x) isKept) :
    Owned a ⟨heap', s.live.erase (dataPtr a s.heap x)⟩ bs' :=
  of_updates hupdates (howned.live_nodup.erase _) howned.mem_erase_live

theorem replaces {heap' : Heap} {isUsed isKept : ℕ → Prop}
    (hy : y = x ∨ y ∉ usedBlocks s.heap bs) (hupdates : Updates a s.heap bs heap' bs' isUsed isKept)
    (hused : ∀ b, isUsed b ↔ b = y ∨ (b ∈ usedBlocks s.heap bs ∧ b ≠ x)) :
    Owned a ⟨heap', regrant (dataPtr a s.heap x) (dataPtr a s.heap y) s.live⟩ bs' := by
  have hregrant : regrant (dataPtr a s.heap x) (dataPtr a s.heap y) s.live =
      dataPtr a s.heap y :: s.live.erase (dataPtr a s.heap x) :=
    if_neg (dataPtr_ne_null a s.heap y)
  rw [hregrant]
  apply of_updates hupdates
  · apply nodup_cons.mpr
    refine ⟨?_, howned.live_nodup.erase _⟩
    intro hmem
    rcases (howned.mem_erase_live _).mp hmem with ⟨b, ⟨hb, hne⟩, heq⟩
    have hby := dataPtr_injective a s.heap heq
    rcases hy with hyx | hyfresh
    · exact hne (hby ▸ hyx)
    · exact hyfresh (hby ▸ hb)
  · intro p
    rw [mem_cons, howned.mem_erase_live]
    constructor
    · rintro (hp | ⟨b, hb, hp⟩)
      · exact ⟨y, (hused y).mpr (.inl rfl), hp⟩
      · exact ⟨b, (hused b).mpr (.inr hb), hp⟩
    · rintro ⟨b, hb, hp⟩
      rcases (hused b).mp hb with hb | hb
      · exact .inl (hb ▸ hp)
      · exact .inr ⟨b, hb, hp⟩

end

end Owned

/-- What one call keeps: ownership, the area, and the position of `lfree`
unless the call shrinks a block in an unlucky place. -/
structure Kept (a : AlignSize) (s : HeapState) (bs : List ℕ) (s' : HeapState)
    (keepsLfree : Prop) : Prop where
  exists_blocks : ∃ bs', Owned a s' bs' ∧
      (keepsLfree → LfreeLowest s.heap bs → LfreeLowest s'.heap bs')
  memSizeAligned_eq : s'.heap.memSizeAligned = s.heap.memSizeAligned

theorem Owned.kept (howned : Owned a s bs) (keepsLfree : Prop) :
    Kept a s bs ⟨s.heap, s.live⟩ keepsLfree :=
  ⟨⟨bs, howned, fun _ hlow => hlow⟩, rfl⟩

theorem Owned.kept_of_alloc {result : Heap × ℕ} (howned : Owned a s bs) (size : ℕ)
    (keepsLfree : Prop) (hresult : result = (s.heap, rtNull) ∨
      ∃ bs' x, result.2 = dataPtr a s.heap x ∧ Allocates a s.heap bs result.1 bs' x size) :
    Kept a s bs ⟨result.1, grant result.2 s.live⟩ keepsLfree := by
  rcases hresult with hnull | ⟨bs', x, hp, halloc⟩
  · rw [hnull]
    exact howned.kept keepsLfree
  · rw [hp]
    refine ⟨⟨bs', howned.allocates halloc, fun _ hlow => halloc.lfreeLowest hlow⟩, ?_⟩
    exact halloc.updates.memSizeAligned_eq

theorem Owned.kept_of_resized {result : Heap × ℕ} {newsize : ℕ} (howned : Owned a s bs)
    (hx : x ∈ usedBlocks s.heap bs) (hresized : Resized a s.heap bs x newsize result) :
    Kept a s bs ⟨result.1, regrant (dataPtr a s.heap x) result.2 s.live⟩
      (Shrinks a s.heap x newsize → ShrinkKeepsLfree s.heap x) := by
  cases hresized with
  | same hp =>
    rcases hp with hp | hp
    · rw [hp]
      exact howned.kept _
    · have hsame : Updates a s.heap bs s.heap bs
          (fun b => b ∈ usedBlocks s.heap bs) (fun _ => True) :=
        ⟨howned.inv, rfl, rfl, rfl, fun _ => Iff.rfl, fun _ _ _ => rfl⟩
      rw [hp]
      refine ⟨⟨bs, howned.replaces (.inl rfl) hsame ?_, fun _ hlow => hlow⟩, rfl⟩
      intro b
      by_cases hbx : b = x
      · simp [hbx, hx]
      · simp [hbx]
  | cut hshrinks hupdates hlow =>
    refine ⟨⟨_, howned.replaces (.inl rfl) hupdates ?_,
      fun hkeeps => hlow (hkeeps hshrinks)⟩, hupdates.memSizeAligned_eq⟩
    intro b
    by_cases hbx : b = x
    · simp [hbx, hx]
    · simp [hbx]
  | @moved h' bs' y hfresh hupdates hlow =>
    refine ⟨⟨_, howned.replaces (.inr hfresh) hupdates ?_, fun _ => hlow⟩,
      hupdates.memSizeAligned_eq⟩
    have hyx : y ≠ x := by
      intro heq
      exact hfresh (heq ▸ hx)
    intro b
    by_cases hby : b = y
    · simp [hby, hyx]
    · simp [hby]

def blockOf (a : AlignSize) (h : Heap) (rmem : ℕ) : ℕ :=
  rmem - sizeofStructMem a - h.heapPtr

theorem blockOf_dataPtr (a : AlignSize) (h : Heap) (x : ℕ) : blockOf a h (dataPtr a h x) = x := by
  unfold blockOf dataPtr
  omega

/-- The product of `rt_calloc` is small enough to be rounded up, or the search
for the smallest block finds nothing. -/
def Call.FillFits (a : AlignSize) (h : Heap) : Call → Prop
  | .calloc count size =>
    mul32 count.toNat size.toNat + a.bytes ≤ 4294967296 ∨
      searchFree a h (minSizeAligned a) (h.heapEnd + 1) h.lfree = some none
  | _ => True

def Call.KeepsLfree (a : AlignSize) (h : Heap) : Call → Prop
  | .realloc rmem newsize =>
    rmem ≠ rtNull → Shrinks a h (blockOf a h rmem) newsize.toNat →
      ShrinkKeepsLfree h (blockOf a h rmem)
  | _ => True

theorem rtCalloc_wrapped {h : Heap} {count size : ℕ}
    (hwrap : 4294967296 < mul32 count size + a.bytes)
    (hnone : searchFree a h (minSizeAligned a) (h.heapEnd + 1) h.lfree = some none) :
    rtCalloc a h count size = some (h, rtNull) := by
  have hlt : mul32 count size < 4294967296 := mul32_lt _ _
  have hzero : rtAlign a (mul32 count size) = 0 := rtAlign_eq_zero_of_wrap a hlt hwrap
  have hpos : mul32 count size ≠ 0 := by
    have := a.bytes_le
    omega
  have hdata : dataSize a 0 = minSizeAligned a := by
    have hsize := twelve_le_sizeofStructMem a
    exact if_pos (by rw [minSizeAligned_eq]; omega)
  have hmalloc : rtMalloc a h (mul32 count size) = some (h, rtNull) := by
    unfold rtMalloc
    simp only [if_neg hpos, hzero, hdata, hnone]
    rw [if_neg (by omega)]
  unfold rtCalloc
  rw [hmalloc]
  rfl

theorem Owned.execute_realloc {rmem newsize : ℕ} {result : Heap × ℕ} (howned : Owned a s bs)
    (hlegal : rmem = rtNull ∨ rmem ∈ s.live)
    (hrealloc : rtRealloc a s.heap rmem newsize = some result) :
    Kept a s bs ⟨result.1, regrant rmem result.2 s.live⟩
      (rmem ≠ rtNull → Shrinks a s.heap (blockOf a s.heap rmem) newsize →
        ShrinkKeepsLfree s.heap (blockOf a s.heap rmem)) := by
  by_cases hnull : rmem = rtNull
  · have hregrant : regrant rmem result.2 s.live = grant result.2 s.live := by
      unfold regrant grant
      rw [hnull, erase_of_not_mem howned.null_not_mem]
    rw [hregrant]
    unfold rtRealloc at hrealloc
    simp only [hnull, if_true] at hrealloc
    split_ifs at hrealloc
    · exact howned.kept_of_alloc 0 _ (.inl (some.inj hrealloc).symm)
    · exact howned.kept_of_alloc _ _ (rtMalloc_spec howned.inv hrealloc)
  · rcases (howned.live_iff rmem).mp (hlegal.resolve_left hnull) with ⟨x, hx, rfl⟩
    rw [blockOf_dataPtr]
    rcases howned.kept_of_resized hx (rtRealloc_spec howned.inv hx hrealloc)
      with ⟨⟨bs', howned', hlow⟩, hsize⟩
    exact ⟨⟨bs', howned', fun hkeeps => hlow (hkeeps hnull)⟩, hsize⟩

/-- A legal call keeps the heap and, but for a shrinking block, its lowest free block. -/
theorem Owned.execute {call : Call} (howned : Owned a s bs) (hlegal : call.Legal s.live)
    (hfits : call.FillFits a s.heap) (hexecute : execute a s call = some s') :
    Kept a s bs s' (call.KeepsLfree a s.heap) := by
  cases call with
  | malloc size =>
    rcases map_eq_some_iff.mp hexecute with ⟨result, hmalloc, rfl⟩
    exact howned.kept_of_alloc _ _ (rtMalloc_spec howned.inv hmalloc)
  | calloc count size =>
    rcases map_eq_some_iff.mp hexecute with ⟨result, hcalloc, rfl⟩
    rcases Nat.lt_or_ge 4294967296 (mul32 count.toNat size.toNat + a.bytes) with hwrap | hwrap
    · rw [rtCalloc_wrapped hwrap (hfits.resolve_left (by omega))] at hcalloc
      exact howned.kept_of_alloc 0 _ (.inl (some.inj hcalloc).symm)
    · exact howned.kept_of_alloc _ _ (rtCalloc_spec howned.inv hwrap hcalloc)
  | realloc rmem newsize =>
    rcases map_eq_some_iff.mp hexecute with ⟨result, hrealloc, rfl⟩
    exact howned.execute_realloc hlegal hrealloc
  | free rmem =>
    rw [← some.inj hexecute]
    by_cases hnull : rmem = rtNull
    · have hsame : rtFree a s.heap rmem = s.heap := if_pos hnull
      rw [hsame, hnull, erase_of_not_mem howned.null_not_mem]
      exact howned.kept _
    · rcases (howned.live_iff rmem).mp (hlegal.resolve_left hnull) with ⟨x, hx, rfl⟩
      rcases rtFree_spec howned.inv hx with ⟨bs', hupdates, hlow⟩
      exact ⟨⟨bs', howned.releases hupdates, fun _ => hlow⟩, hupdates.memSizeAligned_eq⟩

theorem Owned.execute_total (howned : Owned a s bs)
    (hroom : minSizeAligned a ≤ s.heap.memSizeAligned) (call : Call) :
    ∃ s', SmallMem.execute a s call = some s' := by
  have hmalloc := rtMalloc_total howned.inv hroom
  cases call with
  | malloc size =>
    rcases hmalloc size.toNat with ⟨result, hresult⟩
    exact ⟨_, by rw [SmallMem.execute, hresult]; rfl⟩
  | calloc count size =>
    rcases hmalloc (mul32 count.toNat size.toNat) with ⟨result, hresult⟩
    unfold SmallMem.execute rtCalloc
    simp only [hresult]
    split_ifs
    · exact ⟨_, rfl⟩
    · exact ⟨_, rfl⟩
  | realloc rmem newsize =>
    rcases hmalloc (rtAlign a newsize.toNat) with ⟨result, hresult⟩
    unfold SmallMem.execute rtRealloc
    simp only [hresult]
    split_ifs <;> exact ⟨_, rfl⟩
  | free rmem => exact ⟨_, rfl⟩

theorem Owned.of_init {minData : ℕ} (hinit : (heapSystem a minData).init s) :
    Owned a s [0] ∧ LfreeLowest s.heap [0] ∧ minData ≤ s.heap.memSizeAligned := by
  rcases hinit with ⟨memory, beginAddr, endAddr, hheap, hsize, hlive⟩
  rcases heapInit_spec endAddr.toNat_lt hheap with ⟨hinv, hlow, hused⟩
  refine ⟨⟨hinv, ?_, ?_⟩, hlow, hsize⟩
  · rw [hlive]
    exact nodup_nil
  · rw [hlive, hused]
    simp

def dataEnd (a : AlignSize) (h : Heap) (p : ℕ) : ℕ :=
  h.heapPtr + (h.header (blockOf a h p)).next

/-- The block list `bs` describes the heap, and the data areas of the live
pointers lie in it. -/
structure ChainIntact (a : AlignSize) (s : HeapState) (bs : List ℕ) : Prop where
  first : bs.head? = some 0
  next_increasing : (bs ++ [s.heap.heapEnd]).IsChain fun x y => (s.heap.header x).next = y ∧ x < y
  prev_eq : bs.IsChain fun x y => (s.heap.header y).prev = x
  noFreePair : NoFreePair s.heap (bs ++ [s.heap.heapEnd])
  live_disjoint :
    s.live.Pairwise fun p q =>
      dataEnd a s.heap p ≤ q ∨ dataEnd a s.heap q ≤ p
  live_aligned : ∀ p ∈ s.live, a.bytes ∣ p
  live_inside : ∀ p ∈ s.live, s.heap.heapPtr ≤ p ∧ p ≤ dataEnd a s.heap p ∧
        dataEnd a s.heap p ≤ s.heap.heapPtr + s.heap.heapEnd
  usedMem_eq : s.heap.usedMem = usedSum s.heap bs
  usedMem_le : s.heap.usedMem ≤ s.heap.maxMem

theorem Owned.exists_block {p : ℕ} (howned : Owned a s bs) (hp : p ∈ s.live) :
    ∃ b ∈ bs, p = dataPtr a s.heap b ∧
      dataEnd a s.heap p = s.heap.heapPtr + (s.heap.header b).next := by
  rcases (howned.live_iff p).mp hp with ⟨b, hb, rfl⟩
  refine ⟨b, (mem_usedBlocks.mp hb).1, rfl, ?_⟩
  rw [dataEnd, blockOf_dataPtr]

theorem Owned.chainIntact (howned : Owned a s bs) : ChainIntact a s bs := by
  have hsize := twelve_le_sizeofStructMem a
  have hblocks := howned.inv.blocks
  constructor
  · exact hblocks.first
  · apply hblocks.chain.imp
    intro x y hxy
    have hgap := hxy.gap
    exact ⟨hxy.next_eq, by lia⟩
  · have hchain := hblocks.chain.left_of_append
    apply isChain_of_neighbours hchain
    intro x y _ hy hxy
    apply hxy.prev_eq
    intro heq
    exact hblocks.end_not_mem (heq ▸ mem_of_mem_tail hy)
  · apply noFreePair_of_used howned.inv.noFreePair hblocks.used_end
    exact .nil
  · apply howned.live_nodup.imp_of_mem
    intro p q hp hq hne
    rcases howned.exists_block hp with ⟨b, hb, hpb, hpend⟩
    rcases howned.exists_block hq with ⟨c, hc, hqc, hqend⟩
    have hbc : b ≠ c := by
      intro heq
      exact hne (by rw [hpb, hqc, heq])
    have hcb := hblocks.apart_of_inside hb (mem_append_left _ hc) le_rfl
    have hbc' := hblocks.apart_of_inside hc (mem_append_left _ hb) le_rfl
    rw [hpend, hqend, hpb, hqc, dataPtr, dataPtr]
    lia
  · intro p hp
    rcases howned.exists_block hp with ⟨b, hb, hpb, -⟩
    rw [hpb, dataPtr]
    apply Nat.dvd_add (Nat.dvd_add hblocks.heapPtr_dvd _) (dvd_sizeofStructMem a)
    exact hblocks.aligned b (mem_append_left _ hb)
  · intro p hp
    rcases howned.exists_block hp with ⟨b, hb, hpb, hpend⟩
    rcases append_of_mem hb with ⟨before, after, hbs⟩
    rcases hblocks.around hbs with ⟨-, -, -, hgap, -, hle⟩
    rw [hpend, hpb, dataPtr]
    lia
  · exact howned.inv.usedMem_eq
  · exact howned.inv.usedMem_le

theorem owned_of_reachable {minData : ℕ} (hreach : (heapSystem a minData).Reachable
      (fun s call => call.FillFits a s.heap) s) :
    (∃ bs, Owned a s bs) ∧ minData ≤ s.heap.memSizeAligned := by
  apply hreach.invariant (P := fun s => (∃ bs, Owned a s bs) ∧ minData ≤ s.heap.memSizeAligned)
  · intro s hinit
    rcases Owned.of_init hinit with ⟨howned, -, hsize⟩
    exact ⟨⟨[0], howned⟩, hsize⟩
  · rintro s call s' ⟨⟨bs, howned⟩, hsize⟩ hfits ⟨hlegal, hexecute⟩
    rcases howned.execute hlegal hfits hexecute with ⟨⟨bs', howned', -⟩, hsame⟩
    exact ⟨⟨bs', howned'⟩, hsame ▸ hsize⟩

/-- In every run whose `rt_calloc` calls fill no more than they were given, the
block chain is intact and every call returns. -/
theorem chainIntact_of_reachable (a : AlignSize) {s : HeapState}
    (hreach : (heapSystem a (minSizeAligned a)).Reachable
      (fun s call => call.FillFits a s.heap) s) : (∃ bs, ChainIntact a s bs) ∧
      ∀ call : Call, call.Legal s.live → ∃ s', execute a s call = some s' := by
  rcases owned_of_reachable hreach with ⟨⟨bs, howned⟩, hsize⟩
  exact ⟨⟨bs, howned.chainIntact⟩, fun call _ => howned.execute_total hsize call⟩

section Sample

instance (live : List ℕ) (call : Call) : Decidable (call.Legal live) :=
  match call with
  | .malloc _ => isTrue trivial
  | .calloc _ _ => isTrue trivial
  | .realloc _ _ => inferInstanceAs (Decidable (_ ∨ _))
  | .free _ => inferInstanceAs (Decidable (_ ∨ _))

instance (a : AlignSize) (h : Heap) (call : Call) : Decidable (call.FillFits a h) :=
  match call with
  | .calloc count size => inferInstanceAs (Decidable
      (mul32 count.toNat size.toNat + a.bytes ≤ 4294967296 ∨
        searchFree a h (minSizeAligned a) (h.heapEnd + 1) h.lfree = some none))
  | .malloc _ => isTrue trivial
  | .realloc _ _ => isTrue trivial
  | .free _ => isTrue trivial

instance (a : AlignSize) (h : Heap) (call : Call) : Decidable (call.KeepsLfree a h) :=
  match call with
  | .realloc rmem newsize => inferInstanceAs (Decidable (rmem ≠ rtNull →
        (rtAlign a newsize.toNat ≤ h.memSizeAligned ∧
          add32 (add32 (rtAlign a newsize.toNat) (sizeofStructMem a)) minSize <
            sub32 (sub32 (h.header (blockOf a h rmem)).next (blockOf a h rmem))
              (sizeofStructMem a)) →
        (h.lfree < blockOf a h rmem ∨ (h.header (h.header (blockOf a h rmem)).next).used = 0)))
  | .malloc _ => isTrue trivial
  | .calloc _ _ => isTrue trivial
  | .free _ => isTrue trivial

theorem minSizeAligned_wordAlign_le : minSizeAligned wordAlign ≤ 1000 := by decide

def sampleRun (guard : Heap → Call → Prop) [∀ h call, Decidable (guard h call)]
    (calls : List Call) : Option HeapState :=
  (rtSystemHeapInit wordAlign (fun _ => 0) 0x20000000 0x20000400).bind fun h =>
    calls.foldlM
      (fun s call =>
        if call.Legal s.live ∧ guard s.heap call then execute wordAlign s call else none)
      ⟨h, []⟩

theorem reachable_sampleRun
    {minData : ℕ} {guard : Heap → Call → Prop} [∀ h call, Decidable (guard h call)]
    {calls : List Call} (hdata : minData ≤ 1000) (hrun : sampleRun guard calls = some s) :
    (heapSystem wordAlign minData).Reachable (fun s call => guard s.heap call) s := by
  rcases bind_eq_some_iff.mp hrun with ⟨h, hinit, hfold⟩
  have hsize : (rtSystemHeapInit wordAlign (fun _ => 0) 0x20000000 0x20000400).map
      Heap.memSizeAligned = some 1000 := by decide
  rw [hinit] at hsize
  have hmem : minData ≤ h.memSizeAligned := by
    rw [some.inj hsize]
    exact hdata
  have hstart : (heapSystem wordAlign minData).init ⟨h, []⟩ :=
    ⟨fun _ => 0, 0x20000000, 0x20000400, hinit, hmem, rfl⟩
  apply TransitionSystem.Reachable.foldlM _ (.start hstart) hfold
  intro s call s' hstep
  split_ifs at hstep with hguard
  exact ⟨hguard.2, hguard.1, hstep⟩

end Sample

theorem chainIntact_of_sample_calls :
    ∃ s, (heapSystem wordAlign (minSizeAligned wordAlign)).Reachable
        (fun s call => call.FillFits wordAlign s.heap) s ∧ s.live = [0x2000000c] ∧
      ∃ bs, ChainIntact wordAlign s bs := by
  have hrun : (sampleRun (fun h call => call.FillFits wordAlign h)
      [.malloc 100, .calloc 4 5, .free 0x2000007c, .realloc 0x2000000c 20]).map
        HeapState.live = some [0x2000000c] := by decide +kernel
  rcases map_eq_some_iff.mp hrun with ⟨s, hs, hlive⟩
  have hreach := reachable_sampleRun minSizeAligned_wordAlign_le hs
  exact ⟨s, hreach, hlive, (chainIntact_of_reachable wordAlign hreach).1⟩

/-- A product just below `2 ^ 32` is rounded to zero, a block of twelve bytes
is handed out, and the fill runs over the header of the first block. -/
theorem not_chainIntact_of_wrapped_calloc :
    ∃ s, (heapSystem wordAlign (minSizeAligned wordAlign)).Reachable (fun _ _ => True) s ∧
      ¬∃ bs, ChainIntact wordAlign s bs := by
  have hrun : (sampleRun (fun _ _ => True) [.calloc 1 0xFFFFFFFF]).map
      (fun s => (s.heap.header 0).next) = some 0 := by decide +kernel
  rcases map_eq_some_iff.mp hrun with ⟨s, hs, hnext⟩
  refine ⟨s, reachable_sampleRun (by decide) hs, ?_⟩
  rintro ⟨bs, hintact⟩
  have hfirst := hintact.first
  have hchain := hintact.next_increasing
  cases bs with
  | nil => simp at hfirst
  | cons b bs =>
    simp only [head?_cons, some.injEq] at hfirst
    rw [hfirst] at hchain
    rcases exists_cons_of_append_head bs s.heap.heapEnd with ⟨z, rest, hz, -⟩
    rw [cons_append, hz] at hchain
    have hlink := (isChain_cons_cons.mp hchain).1
    omega

/-- The list `bs` holds the offsets found by following `next` from offset zero
to `heap_end`, and `lfree` is its lowest free block, or `heap_end` when no
block is free. -/
structure LfreeIsLowest (h : Heap) (bs : List ℕ) : Prop where
  first : bs.head? = some 0
  next_increasing : (bs ++ [h.heapEnd]).IsChain fun x y => (h.header x).next = y ∧ x < y
  lowest : (h.lfree ∈ bs ∧ (h.header h.lfree).used = 0 ∧
        ∀ b ∈ bs, (h.header b).used = 0 → h.lfree ≤ b) ∨
      (h.lfree = h.heapEnd ∧ ∀ b ∈ bs, (h.header b).used ≠ 0)

theorem Owned.lfreeIsLowest (howned : Owned a s bs) (hlow : LfreeLowest s.heap bs) :
    LfreeIsLowest s.heap bs := by
  have hintact := howned.chainIntact
  refine ⟨hintact.first, hintact.next_increasing, ?_⟩
  rcases howned.inv.lfreeValid with hend | ⟨hmem, hfree⟩
  · refine .inr ⟨hend, ?_⟩
    intro b hb hfree
    have hle := hlow b hb hfree
    have hlt := howned.inv.blocks.mem_lt hb
    have hsize := twelve_le_sizeofStructMem a
    omega
  · exact .inl ⟨hmem, hfree, hlow⟩

/-- In every run whose shrinking `rt_realloc` calls happen above `lfree` or
before a free block, `lfree` is the lowest free block. -/
theorem lfreeIsLowest_of_reachable (a : AlignSize) {s : HeapState}
    (hreach : (heapSystem a 0).Reachable
      (fun s call => call.FillFits a s.heap ∧ call.KeepsLfree a s.heap) s) :
    ∃ bs, LfreeIsLowest s.heap bs := by
  have hinv : ∃ bs, Owned a s bs ∧ LfreeLowest s.heap bs := by
    apply hreach.invariant (P := fun s => ∃ bs, Owned a s bs ∧ LfreeLowest s.heap bs)
    · intro s hinit
      rcases Owned.of_init hinit with ⟨howned, hlow, -⟩
      exact ⟨[0], howned, hlow⟩
    · rintro s call s' ⟨bs, howned, hlow⟩ ⟨hfits, hkeeps⟩ ⟨hlegal, hexecute⟩
      rcases howned.execute hlegal hfits hexecute with ⟨⟨bs', howned', hlow'⟩, -⟩
      exact ⟨bs', howned', hlow' hkeeps hlow⟩
  rcases hinv with ⟨bs, howned, hlow⟩
  exact ⟨bs, howned.lfreeIsLowest hlow⟩

theorem lfreeIsLowest_of_sample_calls : ∃ s, (heapSystem wordAlign 0).Reachable
        (fun s call => call.FillFits wordAlign s.heap ∧ call.KeepsLfree wordAlign s.heap) s ∧
      s.live = [0x2000000c] ∧ ∃ bs, LfreeIsLowest s.heap bs := by
  have hrun : (sampleRun (fun h call => call.FillFits wordAlign h ∧ call.KeepsLfree wordAlign h)
      [.malloc 400, .malloc 16, .free 0x200001a8, .realloc 0x2000000c 16]).map
        HeapState.live = some [0x2000000c] := by decide +kernel
  rcases map_eq_some_iff.mp hrun with ⟨s, hs, hlive⟩
  have hreach := reachable_sampleRun (Nat.zero_le 1000) hs
  exact ⟨s, hreach, hlive, lfreeIsLowest_of_reachable wordAlign hreach⟩

/-- Shrinking the lowest block leaves `lfree` above the block which has become free. -/
theorem not_lfreeIsLowest_of_shrink :
    ∃ s, (heapSystem wordAlign 0).Reachable (fun _ _ => True) s ∧
      ¬∃ bs, LfreeIsLowest s.heap bs := by
  have hrun : (sampleRun (fun _ _ => True) [.malloc 400, .malloc 16, .realloc 0x2000000c 16]).map
        (fun s => ((s.heap.header 0).next, (s.heap.header 28).used, s.heap.lfree,
          s.heap.heapEnd)) = some (28, 0, 440, 1012) := by decide +kernel
  rcases map_eq_some_iff.mp hrun with ⟨s, hs, hfields⟩
  simp only [Prod.mk.injEq] at hfields
  rcases hfields with ⟨hnext, hfree, hlfree, hend⟩
  refine ⟨s, reachable_sampleRun (by decide) hs, ?_⟩
  rintro ⟨bs, hlowest⟩
  have hmem : 28 ∈ bs := by
    have hfirst := hlowest.first
    have hchain := hlowest.next_increasing
    cases bs with
    | nil => simp at hfirst
    | cons b bs =>
      simp only [head?_cons, some.injEq] at hfirst
      rw [hfirst] at hchain ⊢
      cases bs with
      | nil =>
        have hlink := (isChain_cons_cons.mp hchain).1
        omega
      | cons c bs =>
        have hlink := (isChain_cons_cons.mp hchain).1
        rw [hnext] at hlink
        simp [← hlink.1]
  rcases hlowest.lowest with ⟨-, -, hlow⟩ | ⟨-, hnone⟩
  · have := hlow 28 hmem hfree
    omega
  · exact hnone 28 hmem hfree

end RtThread.SmallMem
