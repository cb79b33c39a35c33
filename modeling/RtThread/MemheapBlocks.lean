import RtThread.MemheapRuns
import RtThread.MemheapData

/-!
# Blocks of a memory heap

The calls of `memheap.c` for a client that keeps its blocks in a list: every call
takes or gives back the block at the head of the list and leaves the bytes of the
others as they are.
-/

namespace RtThread.MemHeap

open List

variable {a : AlignSize} {area : Area a} {state : State} {m m' m'' : Memory} {p q n : ℕ}
  {live live' rest : List ℕ}

def blockEnd (a : AlignSize) (m : Memory) (p : ℕ) : ℕ := get m .next (p - memheapSize a)

structure SameBlock (a : AlignSize) (m m' : Memory) (p : ℕ) : Prop where
  ends : blockEnd a m' p = blockEnd a m p
  byte : ∀ b, p ≤ b → b < blockEnd a m p → m' b = m b

theorem SameBlock.trans (hfirst : SameBlock a m m' p) (hsecond : SameBlock a m' m'' p) :
    SameBlock a m m'' p where
  ends := hsecond.ends.trans hfirst.ends
  byte b hlow hhigh := by
    rw [hsecond.byte b hlow (hfirst.ends.symm ▸ hhigh), hfirst.byte b hlow hhigh]

theorem Kept.sameBlock (hkept : Kept a m m' (p - memheapSize a)) (hp : memheapSize a ≤ p) :
    SameBlock a m m' p where
  ends := hkept.next
  byte b hlow hhigh := hkept.data b (by omega) hhigh

theorem SameBlock.load_eq {addr width : ℕ} (hsame : SameBlock a m m' p) (hlow : p ≤ addr)
    (hhigh : addr + width ≤ blockEnd a m p) : m'.load addr width = m.load addr width := by
  apply Memory.load_congr
  intro b hb hend
  exact hsame.byte b (by omega) (by omega)

structure Granted (area : Area a) (state : State) (live : List ℕ) (n : ℕ)
    (result : State × ℕ) : Prop where
  owned : Owned area ⟨result.1, result.2 :: live⟩
  room : result.2 + n ≤ blockEnd a result.1.memory result.2
  same : ∀ q ∈ live, SameBlock a state.memory result.1.memory q

namespace Owned

section

variable (howned : Owned area ⟨state, live⟩)
include howned

theorem perm (hperm : live.Perm live') : Owned area ⟨state, live'⟩ where
  holds := howned.holds.congr fun _ => hperm.mem_iff
  live_nodup := hperm.nodup_iff.mp howned.live_nodup
  live_ge p hp := howned.live_ge p (hperm.mem_iff.mpr hp)

theorem item_mem (hp : p ∈ live) : p - memheapSize a + memheapSize a ∈ live := by
  rw [Nat.sub_add_cancel (howned.live_ge p hp)]
  exact hp

theorem start_lt (hp : p ∈ live) : area.start < p := by
  rcases howned.holds with ⟨bs, fs, hinv, hused⟩
  have hitem := ((hused (p - memheapSize a)).mpr (howned.item_mem hp)).1
  have hlow := hinv.ordered.start_le hitem
  have hge := howned.live_ge p hp
  have hsize := twentyFour_le_memheapSize a
  omega

theorem isUsed_eq (hp : p ∈ live) : isUsed state.memory (p - memheapSize a) = true := by
  rcases howned.holds with ⟨bs, fs, -, hused⟩
  exact ((hused (p - memheapSize a)).mpr (howned.item_mem hp)).2

end

theorem rest_item {x : ℕ} (howned : Owned area ⟨state, (x + memheapSize a) :: rest⟩)
    (hq : q ∈ rest) : memheapSize a ≤ q ∧
      q - memheapSize a + memheapSize a ∈ (x + memheapSize a) :: rest ∧ q - memheapSize a ≠ x := by
  have hlive : q ∈ (x + memheapSize a) :: rest := mem_cons_of_mem _ hq
  have hge := howned.live_ge q hlive
  refine ⟨hge, howned.item_mem hlive, ?_⟩
  rintro rfl
  have hnodup := (nodup_cons.mp howned.live_nodup).1
  rw [Nat.sub_add_cancel hge] at hnodup
  exact hnodup hq

theorem ne_null (howned : Owned area ⟨state, live⟩) (hp : p ∈ live) : p ≠ rtNull :=
  fun hnull => howned.null_not_mem (hnull ▸ hp)

theorem allocBlock (howned : Owned area ⟨state, live⟩) (n : ℕ) :
    ∃ result, rtMemheapAlloc a state area.heap n = some result ∧
      (result = (state, rtNull) ∨ Granted area state live (itemSize a n) result) := by
  rcases howned.holds.rtMemheapAlloc n with ⟨result, hresult, hcases⟩
  refine ⟨result, hresult, ?_⟩
  rcases hcases with hnull | ⟨y, hq, hfresh, hholds, hroom⟩
  · exact .inl hnull
  · have hframed := howned.holds.rtMemheapAlloc_framed hresult
    have hgrant : grant (y + memheapSize a) live = (y + memheapSize a) :: live :=
      if_neg (add_memheapSize_ne_null a y)
    right
    constructor
    · rw [hq, ← hgrant]
      exact howned.allocates hfresh hholds
    · rw [hq]
      unfold blockEnd
      rw [Nat.add_sub_cancel]
      exact hroom
    · intro q hlive
      exact (hframed.kept _ (howned.item_mem hlive)).sameBlock (howned.live_ge q hlive)

section

variable (howned : Owned area ⟨state, p :: rest⟩)
include howned

theorem freeBlock : Owned area ⟨rtMemheapFree a state p, rest⟩ ∧
      ∀ q ∈ rest, SameBlock a state.memory (rtMemheapFree a state p).memory q := by
  rcases howned.exists_item mem_cons_self with ⟨x, rfl⟩
  have hx : x + memheapSize a ∈ (x + memheapSize a) :: rest := mem_cons_self
  constructor
  · have hreleased := howned.releases (howned.holds.rtMemheapFree hx)
    rwa [erase_cons_head] at hreleased
  · intro q hq
    rcases howned.rest_item hq with ⟨hge, hitem, hne⟩
    exact ((howned.holds.rtMemheapFree_framed hx).kept _ ⟨hitem, hne⟩).sameBlock hge

theorem writeBlock (hwithin : ∀ b, b < p ∨ blockEnd a state.memory p ≤ b → m' b = state.memory b) :
    Owned area ⟨{ state with memory := m' }, p :: rest⟩ ∧
      blockEnd a m' p = blockEnd a state.memory p ∧
      ∀ q ∈ rest, SameBlock a state.memory m' q := by
  rcases howned.exists_item mem_cons_self with ⟨x, rfl⟩
  have hx : x + memheapSize a ∈ (x + memheapSize a) :: rest := mem_cons_self
  unfold blockEnd at hwithin
  rw [Nat.add_sub_cancel] at hwithin
  rcases howned.holds.write_within hx hwithin with ⟨hholds, hnext, hframed⟩
  refine ⟨⟨hholds, howned.live_nodup, howned.live_ge⟩, ?_, ?_⟩
  · unfold blockEnd
    rw [Nat.add_sub_cancel]
    exact hnext
  · intro q hq
    rcases howned.rest_item hq with ⟨hge, hitem, hne⟩
    exact (hframed.kept _ ⟨hitem, hne⟩).sameBlock hge

theorem reallocBlock (hpos : n ≠ 0)
    (hfits : SizeFits a n) : ∃ result, rtMemheapRealloc a state area.heap p n = some result ∧
      (result = (state, rtNull) ∨ Granted area state rest (itemSize a n) result ∧
          ∀ k < n, p + k < blockEnd a state.memory p →
            result.1.memory (result.2 + k) = state.memory (p + k)) := by
  have hsmall : n ≤ itemSize a n :=
    (le_rtAlign a (by have := hfits.1; have := a.bytes_pos; omega)).trans (itemSize_spec a n).1
  rcases howned.exists_item mem_cons_self with ⟨x, rfl⟩
  have hx : x + memheapSize a ∈ (x + memheapSize a) :: rest := mem_cons_self
  have hgrowth : ¬WrappedGrowth a state.memory x (itemSize a n) := not_wrappedGrowth hfits.2
  rcases howned.holds.rtMemheapRealloc hx hgrowth with ⟨result, hresult, hresized⟩
  rcases howned.holds.rtMemheapRealloc_data hx hpos hgrowth hresult with ⟨hframed, hcarried⟩
  have hlist := howned.of_resized hx hresized
  refine ⟨result, hresult, ?_⟩
  by_cases hnull : result.2 = rtNull
  · cases hresized with
    | released hzero => contradiction
    | failed => exact .inl rfl
    | kept => exact absurd hnull (add_memheapSize_ne_null a x)
    | moved => exact absurd hnull (add_memheapSize_ne_null a _)
  · unfold regrant at hlist
    rw [if_neg hpos, if_neg hnull, erase_cons_head] at hlist
    rcases hcarried hnull with ⟨y, hq, hcarried⟩
    refine .inr ⟨⟨hlist, ?_, ?_⟩, ?_⟩
    · rw [hq]
      unfold blockEnd
      rw [Nat.add_sub_cancel]
      exact hcarried.room
    · intro q hq
      rcases howned.rest_item hq with ⟨hge, hitem, hne⟩
      exact (hframed.kept _ ⟨hitem, hne⟩).sameBlock hge
    · intro k hk hend
      unfold blockEnd at hend
      rw [Nat.add_sub_cancel] at hend
      rw [hq]
      exact hcarried.data k (by omega) hend

end

end Owned

end RtThread.MemHeap
