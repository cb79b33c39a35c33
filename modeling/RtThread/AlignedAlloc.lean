import Mathlib
import RtThread.ByteMemory
import RtThread.KernelDefs

/-!
# Aligned allocation

`rt_malloc_align` asks the heap for a larger block, rounds its address up to
the alignment and keeps the address of the block in the word before the one it
returns; `rt_free_align` reads that word.  The heap is a parameter: any
allocator whose blocks are word aligned and lie in the address space.
-/

namespace RtThread.AlignedAlloc

open Word

/-- `rt_malloc` and `rt_free`. -/
structure Heap where
  rtMalloc : Memory → ℕ → Memory × ℕ
  rtFree : Memory → ℕ → Memory

/-- `rt_malloc` fails or gives memory below 2^32 on a multiple of four. -/
def Heap.Serves (heap : Heap) (m : Memory) (n : ℕ) : Prop :=
  (heap.rtMalloc m n).2 = rtNull ∨
    4 ∣ (heap.rtMalloc m n).2 ∧ (heap.rtMalloc m n).2 + n ≤ 4294967296

def alignSize (size align : ℕ) : ℕ :=
  Word.add32 (Word.alignUp size 4) (Word.alignUp align 4)

def alignPtr (ptr align : ℕ) : ℕ :=
  if ptr &&& Word.sub32 align 1 = 0 then Word.add32 ptr align else Word.alignUp ptr align

def rtMallocAlign (heap : Heap) (m : Memory) (size align : ℕ) : Memory × ℕ :=
  let (m, ptr) := heap.rtMalloc m (alignSize size align)
  if ptr = rtNull then (m, ptr)
  else
    let aligned := alignPtr ptr (Word.alignUp align 4)
    (m.store (Word.sub32 aligned 4) 4 ptr, aligned)

def rtFreeAlign (heap : Heap) (m : Memory) (ptr : ℕ) : Memory :=
  heap.rtFree m (m.load (Word.sub32 ptr 4) 4)

def span (p n : ℕ) : Set ℕ := Set.Ico p (p + n)

theorem alignUp_four {x : ℕ} (hx : x + 4 ≤ 4294967296) : Word.alignUp x 4 = (x + 3) / 4 * 4 := by
  have hmod : (x + 4 - 1) % 4294967296 = x + 3 := Nat.mod_eq_of_lt (by omega)
  have hmask := and_mask_eq (x := x + 3) (k := 2) (by omega) (by decide)
  rw [alignUp, hmod]
  exact hmask

theorem alignUp_four_two_pow {k : ℕ} (hk : k ≤ 31) : Word.alignUp (2 ^ k) 4 = 2 ^ max k 2 := by
  have hle : 2 ^ k ≤ 2 ^ 31 := Nat.pow_le_pow_right (by decide) hk
  rw [alignUp_four (by omega)]
  rcases Nat.lt_or_ge k 2 with hsmall | hlarge
  · rw [max_eq_right hsmall.le]
    interval_cases k
    · decide
    · decide
  · obtain ⟨d, rfl⟩ := Nat.exists_eq_add_of_le hlarge
    rw [max_eq_left hlarge, Nat.pow_add]
    omega

theorem alignPtr_bounds {ptr k : ℕ} (hk : 2 ≤ k) (hptr : 4 ∣ ptr)
    (hroom : ptr + 2 ^ k < 4294967296) :
    2 ^ k ∣ alignPtr ptr (2 ^ k) ∧ ptr + 4 ≤ alignPtr ptr (2 ^ k) ∧
      alignPtr ptr (2 ^ k) ≤ ptr + 2 ^ k := by
  have hpos : 0 < 2 ^ k := Nat.two_pow_pos k
  have hk32 : k ≤ 32 := by
    by_contra hlarge
    have hpow : 2 ^ 32 ≤ 2 ^ k := Nat.pow_le_pow_right (by decide) (by lia)
    lia
  have hfour : 4 ∣ 2 ^ k := Nat.pow_dvd_pow 2 hk
  have hmask : ptr &&& sub32 (2 ^ k) 1 = ptr % 2 ^ k := by
    rw [sub32_eq_of_le hpos (by lia), Nat.and_two_pow_sub_one_eq_mod]
  rw [alignPtr, hmask, add32_eq_of_lt hroom]
  split_ifs with haligned
  · have hfit := Nat.le_of_dvd hpos hfour
    exact ⟨Nat.dvd_add (Nat.dvd_of_mod_eq_zero haligned) dvd_rfl, by lia, le_rfl⟩
  · have hdvd := @dvd_alignUp ptr k hk32
    have hlow := @le_alignUp ptr k hk32 hroom.le
    have hhigh := @alignUp_lt_add ptr k hk32 hroom.le
    have hne : alignUp ptr (2 ^ k) ≠ ptr := by
      intro heq
      exact haligned (Nat.mod_eq_zero_of_dvd (heq ▸ hdvd))
    -- Both addresses are multiples of four, so a gap is at least a word.
    have hword : 4 ∣ alignUp ptr (2 ^ k) := hfour.trans hdvd
    exact ⟨hdvd, by lia, hhigh.le⟩

theorem alignPtr_of_end {ptr k : ℕ} (hk : k ≤ 31) (hend : ptr + 2 ^ k = 4294967296) :
    alignPtr ptr (2 ^ k) = rtNull := by
  have hpos : 0 < 2 ^ k := Nat.two_pow_pos k
  have hle : 2 ^ k ≤ 2 ^ 31 := Nat.pow_le_pow_right (by decide) hk
  have hspace : 2 ^ k ∣ 4294967296 := Nat.pow_dvd_pow 2 (n := 32) (by omega)
  have hptr : 2 ^ k ∣ ptr := by
    rw [← hend] at hspace
    exact (Nat.dvd_add_left dvd_rfl).mp hspace
  have hmask : ptr &&& sub32 (2 ^ k) 1 = 0 := by
    rw [sub32_eq_of_le hpos (by omega), Nat.and_two_pow_sub_one_eq_mod]
    exact Nat.mod_eq_zero_of_dvd hptr
  rw [alignPtr, if_pos hmask, add32, hend]
  rfl

section Requests

variable {size align : ℕ}

theorem alignSize_eq {k : ℕ} (hk : k ≤ 31)
    (hpad : (size + 3) / 4 * 4 + (2 ^ k + 3) / 4 * 4 < 4294967296) :
    alignSize size (2 ^ k) = (size + 3) / 4 * 4 + 2 ^ max k 2 := by
  have halign := alignUp_four_two_pow hk
  rw [alignUp_four (by omega)] at halign
  rw [alignSize, alignUp_four (x := size) (by omega), alignUp_four (x := 2 ^ k) (by omega),
    add32_eq_of_lt hpad, halign]

/-- The result of an aligned request is aligned; its bytes and the word before them lie in the
block that the heap gave, and releasing it gives that block back. -/
theorem rtMallocAlign_sound (heap : Heap) (m : Memory) (hpower : ∃ k, align = 2 ^ k)
    (hpad : (size + 3) / 4 * 4 + (align + 3) / 4 * 4 < 4294967296)
    (hserves : heap.Serves m (alignSize size align)) :
    let block := (heap.rtMalloc m (alignSize size align)).2
    let result := rtMallocAlign heap m size align
    result.2 = rtNull ∨ align ∣ result.2 ∧ Disjoint (span (result.2 - 4) 4) (span result.2 size) ∧
      span (result.2 - 4) 4 ⊆ span block (alignSize size align) ∧
      span result.2 size ⊆ span block (alignSize size align) ∧
      ∀ m', Memory.AgreeOn result.1 m' (result.2 - 4) 4 →
        rtFreeAlign heap m' result.2 = heap.rtFree m' block := by
  obtain ⟨k, rfl⟩ := hpower
  have hk : k ≤ 31 := by
    by_contra hlarge
    have hpow : 2 ^ 32 ≤ 2 ^ k := Nat.pow_le_pow_right (by decide) (by lia)
    lia
  have hsize := alignSize_eq hk hpad
  intro block result
  have hresult : result = if block = rtNull then heap.rtMalloc m (alignSize size (2 ^ k))
      else ((heap.rtMalloc m (alignSize size (2 ^ k))).1.store
        (sub32 (alignPtr block (2 ^ max k 2)) 4) 4 block,
        alignPtr block (2 ^ max k 2)) := by
    rw [← alignUp_four_two_pow hk]
    rfl
  rcases hserves with hnull | ⟨hword, hspace⟩
  · left
    rw [hresult, if_pos hnull]
    exact hnull
  · change 4 ∣ block at hword
    change block + alignSize size (2 ^ k) ≤ 4294967296 at hspace
    by_cases hnull : block = rtNull
    · left
      rw [hresult, if_pos hnull]
      exact hnull
    · rw [hresult, if_neg hnull]
      rw [hsize] at hspace ⊢
      rcases Nat.lt_or_ge (block + 2 ^ max k 2) 4294967296 with hroom | hend
      · right
        obtain ⟨hdvd, hlow, hhigh⟩ := alignPtr_bounds (le_max_right k 2) hword hroom
        generalize alignPtr block (2 ^ max k 2) = p at *
        have hbefore : sub32 p 4 = p - 4 := sub32_eq_of_le (by lia) (by lia)
        refine ⟨(Nat.pow_dvd_pow 2 (le_max_left k 2)).trans hdvd, ?_, ?_, ?_, ?_⟩
        · exact Set.Ico_disjoint_Ico.mpr (by lia)
        · exact Set.Ico_subset_Ico (by lia) (by lia)
        · exact Set.Ico_subset_Ico (by lia) (by lia)
        · intro m' hagree
          have hsaved : m'.load (p - 4) 4 = block := by
            rw [Memory.load_congr hagree, hbefore, Memory.load_store_same]
            exact Nat.mod_eq_of_lt (by lia)
          rw [rtFreeAlign, hbefore, hsaved]
      · left
        exact alignPtr_of_end (max_le hk (by decide)) (by lia)

end Requests

def oneBlock : Heap where
  rtMalloc m n := if m.load 536870912 4 = 0 ∧ n ≤ 65536 then (m.store 536870912 4 n, 536870916)
    else (m, rtNull)
  rtFree m ptr := m.store (ptr - 4) 4 0

theorem oneBlock_serves (m : Memory) (n : ℕ) : oneBlock.Serves m n := by
  unfold Heap.Serves oneBlock
  dsimp only
  split_ifs with hfree
  · right
    omega
  · exact .inl rfl

theorem alignSize_ten : alignSize 10 32 = 44 :=
  @alignSize_eq 10 5 (by decide) (by decide)

theorem oneBlock_first : (oneBlock.rtMalloc (fun _ => 0) (alignSize 10 32)).2 = 536870916 := by
  simp [oneBlock, alignSize_ten, Memory.load]

theorem rtMallocAlign_sound_ten :
    let result := rtMallocAlign oneBlock (fun _ => 0) 10 32
    result.2 = 536870944 ∧ 32 ∣ result.2 ∧ span result.2 10 ⊆ span 536870916 44 ∧
      rtFreeAlign oneBlock result.1 result.2 = oneBlock.rtFree result.1 536870916 := by
  have hsound := @rtMallocAlign_sound 10 32 oneBlock (fun _ => 0) ⟨5, rfl⟩
     (by decide) (oneBlock_serves _ _)
  have hresult : (rtMallocAlign oneBlock (fun _ => 0) 10 32).2 = 536870944 := by
    have haligned : alignPtr 536870916 (alignUp 32 4) = 536870944 := by decide +kernel
    simp [rtMallocAlign, oneBlock_first, rtNull, haligned]
  rw [oneBlock_first, alignSize_ten] at hsound
  rcases hsound with hnull | ⟨hdvd, -, -, hinside, hfree⟩
  · nomatch hnull.symm.trans hresult
  · exact ⟨hresult, hdvd, hinside, hfree _ (fun _ _ _ => rfl)⟩

end RtThread.AlignedAlloc
