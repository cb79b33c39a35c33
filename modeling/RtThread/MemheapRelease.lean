import RtThread.MemheapAlloc

/-!
# Returning items to a memory heap

While an item is given back, it is marked free before it has its place in the
lists.  `Loose` describes the heap in these moments; the merges with the
neighbours and the insertion into the free list lead from one such moment to
the next and back to the invariant.
-/

namespace RtThread.MemHeap

open List Option Word

/-- The item `x` between `before` and `after` is marked free; apart from this
item the lists and flags agree. -/
structure Loose {a : AlignSize} (area : Area a) (m : Memory) (before : List ℕ) (x : ℕ)
    (after fs : List ℕ) : Prop where
  ordered : Ordered a area.start area.tail (before ++ x :: after)
  rings : Rings m (itemSet area.head area.tail (before ++ x :: after)) area.tail area.head
      (before ++ x :: after) fs
  free : isUsed m x = false
  free_iff : ∀ i, i ≠ x → (i ∈ fs ↔ i ∈ before ++ x :: after ∧ isUsed m i = false)
  tail_used : isUsed m area.tail = true
  left : NoFreePair m before
  right : NoFreePair m (after ++ [area.tail])
  poolPtr_eq : ∀ i ∈ before ++ x :: after, get m .poolPtr i = area.heap

variable {a : AlignSize} {area : Area a} {m m' : Memory} {s : State} {x y p : ℕ}
  {bs fs before after : List ℕ} {A : Set ℕ}

theorem mem_remove {i : ℕ} (hnodup : (before ++ x :: y :: after).Nodup) :
    i ∈ before ++ x :: after ↔ i ∈ before ++ x :: y :: after ∧ i ≠ y := by
  have hperm : (before ++ x :: y :: after).Perm (y :: (before ++ x :: after)) := by
    rw [show before ++ x :: y :: after = (before ++ [x]) ++ y :: after by simp,
      show before ++ x :: after = (before ++ [x]) ++ after by simp]
    exact perm_middle
  rw [hperm.nodup_iff, nodup_cons] at hnodup
  rw [hperm.mem_iff, mem_cons]
  constructor
  · intro hi
    exact ⟨.inr hi, fun heq => hnodup.1 (heq ▸ hi)⟩
  · rintro ⟨hi, hne⟩
    exact hi.resolve_left hne

theorem Rings.dropped {tail head start : ℕ}
    (hrings : Rings m A tail head (before ++ x :: y :: after) fs)
    (hordered : Ordered a start tail (before ++ x :: y :: after))
    (hremoves : RemovesBlock m m' A y) : Rings m' A tail head (before ++ x :: after) fs ∧
      KeepsFields m m' A [.next, .prev] ∧ get m' .next x = get m .next y ∧
      ∀ j ∈ A, j ≠ x → get m' .next j = get m .next j := by
  have hnodup := hordered.nodup
  have hymem : y ∈ before ++ x :: y :: after := by simp
  have hsplit : before ++ x :: y :: after ++ [tail] =
      before ++ x :: y :: (after ++ [tail]) := by simp
  have hprev : get m .prev y = x := hrings.prev_eq hsplit
  have herase : (before ++ x :: y :: after).erase y = before ++ x :: after := by
    have hshape : before ++ x :: y :: after = (before ++ [x]) ++ y :: after := by simp
    have hnot : y ∉ before ++ [x] := by
      rw [hshape, nodup_append] at hnodup
      intro hin
      exact hnodup.2.2 y hin y mem_cons_self rfl
    rw [hshape, erase_append_right _ hnot, erase_cons_head]
    simp
  rcases hrings.removeBlock hymem hremoves with ⟨hrings', hkeeps, hnextx, hframe⟩
  rw [herase] at hrings'
  rw [hprev] at hnextx hframe
  exact ⟨hrings', hkeeps, hnextx, hframe⟩

theorem Rings.joined {tail head start : ℕ}
    (hrings : Rings m (itemSet head tail (before ++ x :: y :: after)) tail head
      (before ++ x :: y :: after) fs) (hordered : Ordered a start tail (before ++ x :: y :: after))
    (hx : isUsed m x = false) (hy : isUsed m y = false)
    (hremoves : RemovesBlock m m' (itemSet head tail (before ++ x :: y :: after)) y) :
    Rings m' (itemSet head tail (before ++ x :: y :: after)) tail head (before ++ x :: after) fs ∧
      KeepsFields m m' (itemSet head tail (before ++ x :: y :: after)) [.next, .prev] ∧
      get m' .next x = get m .next y ∧ freeSum a m' (before ++ x :: after) =
        freeSum a m (before ++ x :: y :: after) + memheapSize a := by
  rcases hrings.dropped hordered hremoves with ⟨hrings', hkeeps, hnextx, hframe⟩
  refine ⟨hrings', hkeeps, hnextx, ?_⟩
  have hsplit : before ++ x :: y :: after ++ [tail] =
      before ++ x :: y :: (after ++ [tail]) := by simp
  have hnext : get m .next x = y := hrings.next_eq hsplit
  have hmem : ∀ i ∈ before ++ x :: y :: after, i ∈ itemSet head tail (before ++ x :: y :: after) :=
    fun i hi => item_mem hi
  have hflag : ∀ i ∈ before ++ x :: y :: after, isUsed m' i = isUsed m i :=
    fun i hi => hkeeps.isUsed_eq (by decide) (hmem i hi)
  have hsizes := hrings.around hordered
    (show before ++ x :: y :: after = (before ++ [x]) ++ y :: after by simp)
  rcases hsizes with ⟨-, -, hbefore, hygap, -, -⟩
  have hxy := hbefore x (by simp)
  have hreplace := freeSum_replace (a := a) before [y] [x] after hordered.nodup
    fun i hi hne => ⟨hflag i hi, hframe i (hmem i hi) hne⟩
  simp only [cons_append, nil_append, freeSum_cons, freeSum_nil, freeBytes,
    hflag x (by simp), hx, hy, hnextx, hnext, Bool.false_eq_true, if_false] at hreplace
  lia

theorem itemSet_remove_subset {head tail : ℕ} : itemSet head tail (before ++ x :: after) ⊆
      itemSet head tail (before ++ x :: y :: after) := by
  intro i hi
  rw [mem_itemSet] at hi ⊢
  grind

namespace Loose

theorem absorbNext (hloose : Loose area m before x (y :: after) fs) (hy : isUsed m y = false) :
    Loose area (absorbNext m x y) before x after (fs.erase y) ∧
      freeSum a (MemHeap.absorbNext m x y) (before ++ x :: after) =
        freeSum a m (before ++ x :: y :: after) + memheapSize a ∧
      get (MemHeap.absorbNext m x y) .next x = get m .next y ∧
      KeepsFields m (MemHeap.absorbNext m x y)
        (itemSet area.head area.tail (before ++ x :: y :: after))
        [.next, .prev, .nextFree, .prevFree] := by
  have hnodup := hloose.ordered.nodup
  have hsplit : before ++ x :: y :: after ++ [area.tail] =
      before ++ x :: y :: (after ++ [area.tail]) := by simp
  have hnext := hloose.rings.next_eq hsplit
  have hxmem : x ∈ area.tail :: (before ++ x :: y :: after) := by simp
  rcases hloose.rings.joined hloose.ordered hloose.free hy
    (hloose.rings.mergeNext_removes hxmem hnext) with ⟨hjoined, hkeeps, hnextx, hsum⟩
  have hxy := hloose.ordered.ne_next
  have hyfs : y ∈ fs := (hloose.free_iff y hxy.symm).mpr ⟨by simp, hy⟩
  rcases hjoined.unlinkFree hyfs with ⟨hunlinked, hkeeps'⟩
  generalize hm' : MemHeap.absorbNext m x y = m'
  unfold MemHeap.absorbNext at hm'
  generalize mergeNext m x y = m₁ at *
  rw [hm'] at hunlinked hkeeps'
  have hall : KeepsFields m m' (itemSet area.head area.tail (before ++ x :: y :: after))
      [.next, .prev, .nextFree, .prevFree] := by
    intro j hj f hf
    simp only [mem_cons, not_mem_nil, or_false, not_or] at hf
    rw [hkeeps' j hj f (by simp [hf.2.2.1, hf.2.2.2]), hkeeps j hj f (by simp [hf.1, hf.2.1])]
  have hsub : itemSet area.head area.tail (before ++ x :: after) ⊆
      itemSet area.head area.tail (before ++ x :: y :: after) := itemSet_remove_subset
  have hflag : ∀ i ∈ itemSet area.head area.tail (before ++ x :: y :: after),
      isUsed m' i = isUsed m i :=
    fun i hi => hall.isUsed_eq (by decide) hi
  have hfsNodup := (nodup_cons.mp hloose.rings.freeRing.nodup).2
  refine ⟨?_, ?_, ?_, hall⟩
  · constructor
    · exact hloose.ordered.remove
    · apply hunlinked.mono hsub
      · intro i hi
        rw [mem_itemSet]
        exact .inr (mem_cons.mp hi)
      · intro i hi
        rw [mem_itemSet]
        rcases mem_cons.mp hi with hi | hi
        · exact .inl hi
        · have hi' := hfsNodup.mem_erase_iff.mp hi
          refine .inr (.inr ((mem_remove hnodup).mpr ⟨?_, hi'.1⟩))
          by_cases hix : i = x
          · rw [hix]
            simp
          · exact ((hloose.free_iff i hix).mp hi'.2).1
    · rw [hflag x (item_mem (by simp))]
      exact hloose.free
    · intro i hix
      rw [hfsNodup.mem_erase_iff, hloose.free_iff i hix, mem_remove hnodup]
      constructor
      · rintro ⟨hne, hi, hfree⟩
        exact ⟨⟨hi, hne⟩, (hflag i (item_mem hi)).trans hfree⟩
      · rintro ⟨⟨hi, hne⟩, hfree⟩
        exact ⟨hne, hi, (hflag i (item_mem hi)).symm.trans hfree⟩
    · rw [hflag _ tail_mem]
      exact hloose.tail_used
    · exact hloose.left.kept hflag fun i hi => item_mem (by simp [hi])
    · have hright : NoFreePair m (after ++ [area.tail]) := hloose.right.tail
      exact hright.kept hflag fun i hi => by grind [mem_itemSet]
    · intro i hi
      have hi' := ((mem_remove hnodup).mp hi).1
      rw [hall i (item_mem hi') _ (by decide)]
      exact hloose.poolPtr_eq i hi'
  · have hsame : freeSum a m' (before ++ x :: after) = freeSum a m₁ (before ++ x :: after) := by
      apply freeSum_congr
      · intro i hi
        exact hkeeps'.isUsed_eq (by decide) (item_mem ((mem_remove hnodup).mp hi).1)
      · intro i hi
        exact hkeeps' i (item_mem ((mem_remove hnodup).mp hi).1) _ (by decide)
    rw [hsame, hsum]
  · rw [hkeeps' x (item_mem (by simp)) _ (by decide)]
    exact hnextx

theorem mergePrev (hloose : Loose area m (before ++ [p]) x after fs) (hp : isUsed m p = false)
    (hx : x ∉ fs) : Loose area (mergePrev m x) before p after fs ∧ p ∈ fs ∧
      freeSum a (MemHeap.mergePrev m x) (before ++ p :: after) =
        freeSum a m (before ++ [p] ++ x :: after) + memheapSize a ∧
      KeepsFields m (MemHeap.mergePrev m x)
        (itemSet area.head area.tail (before ++ [p] ++ x :: after)) [.next, .prev] := by
  have hshape : before ++ [p] ++ x :: after = before ++ p :: x :: after := by simp
  have hordered := hloose.ordered
  have hrings := hloose.rings
  have hfreeIff := hloose.free_iff
  have hpool := hloose.poolPtr_eq
  rw [hshape] at hordered hrings hfreeIff hpool ⊢
  have hnodup := hordered.nodup
  have hxmem : x ∈ area.tail :: (before ++ p :: x :: after) := by simp
  rcases hrings.joined hordered hp hloose.free (hrings.mergePrev_removes hxmem)
    with ⟨hjoined, hkeeps, -, hsum⟩
  have hpx := hordered.ne_next
  have hpfs : p ∈ fs := (hfreeIff p hpx).mpr ⟨by simp, hp⟩
  generalize MemHeap.mergePrev m x = m' at *
  have hsub : itemSet area.head area.tail (before ++ p :: after) ⊆
      itemSet area.head area.tail (before ++ p :: x :: after) := itemSet_remove_subset
  have hflag : ∀ i ∈ itemSet area.head area.tail (before ++ p :: x :: after),
      isUsed m' i = isUsed m i :=
    fun i hi => hkeeps.isUsed_eq (by decide) hi
  refine ⟨?_, hpfs, hsum, hkeeps⟩
  constructor
  · exact hordered.remove
  · apply hjoined.mono hsub
    · intro i hi
      rw [mem_itemSet]
      exact .inr (mem_cons.mp hi)
    · intro i hi
      rw [mem_itemSet]
      rcases mem_cons.mp hi with hi | hi
      · exact .inl hi
      · have hix : i ≠ x := fun heq => hx (heq ▸ hi)
        exact .inr (.inr ((mem_remove hnodup).mpr ⟨((hfreeIff i hix).mp hi).1, hix⟩))
  · rw [hflag p (item_mem (by simp))]
    exact hp
  · intro i hip
    rw [mem_remove hnodup]
    by_cases hix : i = x
    · simp [hix, hx]
    · rw [hfreeIff i hix]
      constructor
      · rintro ⟨hi, hfree⟩
        exact ⟨⟨hi, hix⟩, (hflag i (item_mem hi)).trans hfree⟩
      · rintro ⟨⟨hi, -⟩, hfree⟩
        exact ⟨hi, (hflag i (item_mem hi)).symm.trans hfree⟩
  · rw [hflag _ tail_mem]
    exact hloose.tail_used
  · have hleft : NoFreePair m before := hloose.left.left_of_append
    exact hleft.kept hflag fun i hi => item_mem (by simp [hi])
  · exact hloose.right.kept hflag fun i hi => by grind [mem_itemSet]
  · intro i hi
    have hi' := ((mem_remove hnodup).mp hi).1
    rw [hkeeps i (item_mem hi') _ (by decide)]
    exact hpool i hi'

theorem pushFree (hloose : Loose area m before x after fs) (hx : x ∉ fs) :
    Loose area (pushFree m area.head x) before x after (x :: fs) ∧
      KeepsFields m (MemHeap.pushFree m area.head x)
        (itemSet area.head area.tail (before ++ x :: after)) [.nextFree, .prevFree] := by
  have hsize := twentyFour_le_memheapSize a
  have hxbs : x ∈ before ++ x :: after := by simp
  have hxA : x ∈ itemSet area.head area.tail (before ++ x :: after) :=
    item_mem hxbs
  have hxhead : x ≠ area.head := by
    have houtside := area.headOutside
    have hlow := hloose.ordered.start_le hxbs
    have hhigh := hloose.ordered.le_tail hxbs
    unfold HeadOutside at houtside
    omega
  have hxout : x ∉ area.head :: fs := by
    simp only [mem_cons, not_or]
    exact ⟨hxhead, hx⟩
  rcases hloose.rings.pushFree hxA hxout with ⟨hpushed, hkeeps⟩
  generalize MemHeap.pushFree m area.head x = m' at *
  have hflag : ∀ i ∈ itemSet area.head area.tail (before ++ x :: after), isUsed m' i = isUsed m i :=
    fun i hi => hkeeps.isUsed_eq (by decide) hi
  refine ⟨?_, hkeeps⟩
  constructor
  · exact hloose.ordered
  · exact hpushed
  · rw [hflag x hxA]
    exact hloose.free
  · intro i hix
    rw [mem_cons, hloose.free_iff i hix]
    constructor
    · intro hi
      have hi' := hi.resolve_left hix
      exact ⟨hi'.1, (hflag i (item_mem hi'.1)).trans hi'.2⟩
    · rintro ⟨hi, hfree⟩
      exact .inr ⟨hi, (hflag i (item_mem hi)).symm.trans hfree⟩
  · rw [hflag _ tail_mem]
    exact hloose.tail_used
  · exact hloose.left.kept hflag fun i hi => item_mem (by simp [hi])
  · exact hloose.right.kept hflag fun i hi => by grind [mem_itemSet]
  · intro i hi
    rw [hkeeps i (item_mem hi) _ (by decide)]
    exact hloose.poolPtr_eq i hi

theorem poolInv {h : RtMemheap} (hloose : Loose area m before x after fs) (hx : x ∈ fs)
    (hleft : ∀ l q, before = l ++ [q] → isUsed m q = true)
    (hright : ∀ z r, after ++ [area.tail] = z :: r → isUsed m z = true)
    (hlist : h.freeList = area.head) (hpool : h.poolSize = area.poolSize)
    (havailable : h.availableSize = freeSum a m (before ++ x :: after))
    (hmax : h.poolSize - h.availableSize ≤ h.maxUsedSize) :
    PoolInv area (s.update area.heap m h) (before ++ x :: after) fs := by
  constructor
  · exact hloose.ordered
  · exact hloose.rings
  · intro i
    by_cases hix : i = x
    · rw [hix]
      exact ⟨fun _ => ⟨by simp, hloose.free⟩, fun _ => hx⟩
    · exact hloose.free_iff i hix
  · exact hloose.tail_used
  · rw [append_assoc, cons_append]
    apply isChain_append.mpr
    refine ⟨hloose.left, ?_, ?_⟩
    · rcases exists_cons_of_append_head after area.tail with ⟨z, r, hz, -⟩
      have hchain := hloose.right
      rw [hz] at hchain ⊢
      exact isChain_cons_cons.mpr ⟨.inr (hright z r hz), hchain⟩
    · intro q hq z hz
      rcases eq_nil_or_concat before with hnil | ⟨l, q', hconcat⟩
      · simp [hnil] at hq
      · rw [concat_eq_append] at hconcat
        rw [hconcat] at hq
        simp only [getLast?_append, getLast?_singleton, some_or,
          mem_def, some.injEq] at hq
        exact .inl (hq ▸ hleft l q' hconcat)
  · exact hloose.poolPtr_eq
  · rw [State.update_heaps]
    exact hlist
  · rw [State.update_heaps]
    exact hpool
  · rw [State.update_heaps]
    exact havailable
  · rw [State.update_heaps]
    exact hmax

end Loose

def SameUsed (m : Memory) (bs : List ℕ) (m' : Memory) (bs' : List ℕ) : Prop :=
  ∀ i, (i ∈ bs' ∧ isUsed m' i = true) ↔ (i ∈ bs ∧ isUsed m i = true)

theorem SameUsed.trans {m'' : Memory} {bs' bs'' : List ℕ} (hfirst : SameUsed m bs m' bs')
    (hsecond : SameUsed m' bs' m'' bs'') : SameUsed m bs m'' bs'' :=
  fun i => (hsecond i).trans (hfirst i)

theorem KeepsFields.sameUsed {head tail : ℕ} {fields : List Field}
    (hkeeps : KeepsFields m m' (itemSet head tail bs) fields) (hmagic : Field.magic ∉ fields) :
    SameUsed m bs m' bs := by
  intro i
  constructor
  · rintro ⟨hi, hused⟩
    rw [hkeeps.isUsed_eq hmagic (item_mem hi)] at hused
    exact ⟨hi, hused⟩
  · rintro ⟨hi, hused⟩
    refine ⟨hi, ?_⟩
    rw [hkeeps.isUsed_eq hmagic (item_mem hi)]
    exact hused

theorem sameUsed_remove (hnodup : (before ++ x :: y :: after).Nodup) (hy : isUsed m y = false) :
    SameUsed m (before ++ x :: y :: after) m (before ++ x :: after) := by
  intro i
  rw [mem_remove hnodup]
  constructor
  · rintro ⟨⟨hi, -⟩, hused⟩
    exact ⟨hi, hused⟩
  · rintro ⟨hi, hused⟩
    refine ⟨⟨hi, ?_⟩, hused⟩
    intro heq
    rw [heq, hy] at hused
    cases hused

section

variable (hloose : Loose area m before x after fs)
include hloose

theorem Loose.add_header : add32 (freeSum a m (before ++ x :: after)) (memheapSize a) =
      freeSum a m (before ++ x :: after) + memheapSize a := by
  have hsum := hloose.rings.freeSum_le hloose.ordered
  have htail := area.tail_eq
  have hfits := area.fits
  have hpool := area.poolSize_le
  have hsize := twentyFour_le_memheapSize a
  exact add32_eq_of_lt (by omega)

theorem Loose.mergeLeft (hx : x ∉ fs) :
    let r := MemHeap.mergeLeft a m x (freeSum a m (before ++ x :: after))
    ∃ before', Loose area r.1 before' r.2.1 after fs ∧
        r.2.2 = freeSum a r.1 (before' ++ r.2.1 :: after) ∧
        freeSum a m (before ++ x :: after) ≤ r.2.2 ∧
        (r.2.1 ∈ fs ↔ isUsed m (get m .prev x) = false) ∧
        (∀ l q, before' = l ++ [q] → isUsed r.1 q = true) ∧
        SameUsed m (before ++ x :: after) r.1 (before' ++ r.2.1 :: after) := by
  intro r
  rcases eq_nil_or_concat before with hnil | ⟨l, p, hconcat⟩
  · have hlinks := hloose.rings.blockRing.links
    have hprev : get m .prev x = area.tail := by
      rw [hnil, nil_append, cons_append, cons_append] at hlinks
      exact (isChain_cons_cons.mp hlinks).1.2
    have hr : r = (m, x, freeSum a m (before ++ x :: after)) := by
      apply if_pos
      rw [hprev]
      exact hloose.tail_used
    rw [hr]
    refine ⟨before, hloose, rfl, le_rfl, ?_, ?_, fun i => Iff.rfl⟩
    · rw [hprev, hloose.tail_used]
      simp [hx]
    · intro l q hlast
      rw [hnil] at hlast
      simp at hlast
  · rw [concat_eq_append] at hconcat
    rw [hconcat] at hloose
    have hprev : get m .prev x = p := by
      exact hloose.rings.prev_eq (show _ = l ++ p :: x :: (after ++ [area.tail]) by simp)
    cases hp : isUsed m p with
    | true =>
      have hr : r = (m, x, freeSum a m (before ++ x :: after)) := by
        apply if_pos
        rw [hprev]
        exact hp
      rw [hr, hconcat]
      refine ⟨l ++ [p], hloose, rfl, le_rfl, ?_, ?_, fun i => Iff.rfl⟩
      · simp [hprev, hp, hx]
      · intro l' q hlast
        have hq := congrArg List.getLast? hlast
        simp only [getLast?_append, getLast?_singleton, some_or,
          some.injEq] at hq
        rw [← hq]
        exact hp
    | false =>
      rcases hloose.mergePrev hp hx with ⟨hmerged, hpfs, hsum, hkeeps⟩
      have hr : r = (MemHeap.mergePrev m x, p,
          freeSum a (MemHeap.mergePrev m x) (l ++ p :: after)) := by
        rw [hsum, ← hloose.add_header, ← hconcat, ← hprev]
        apply if_neg
        rw [hprev, hp]
        decide
      rw [hr, hconcat]
      have hflag : ∀ i ∈ l ++ [p] ++ x :: after, isUsed (MemHeap.mergePrev m x) i = isUsed m i :=
        fun i hi => hkeeps.isUsed_eq (by decide) (item_mem hi)
      refine ⟨l, hmerged, rfl, hsum ▸ Nat.le_add_right _ _, ?_, ?_, ?_⟩
      · simp [hprev, hp, hpfs]
      · intro l' q hlast
        have hpair := hloose.left
        rw [hlast, append_assoc, singleton_append] at hpair
        have hqp := (isChain_append_cons_cons.mp hpair).2.1
        rw [hflag q (by simp [hlast])]
        exact hqp.resolve_right (by simp [hp])
      · have hshape : l ++ [p] ++ x :: after = l ++ p :: x :: after := by simp
        have hnodup := hloose.ordered.nodup
        have hsame := hkeeps.sameUsed (by decide)
        rw [hshape] at hsame hnodup hflag ⊢
        apply hsame.trans
        apply sameUsed_remove hnodup
        rw [hflag x (by simp)]
        exact hloose.free

theorem Loose.mergeRight :
    let r := MemHeap.mergeRight a m x (freeSum a m (before ++ x :: after))
    ∃ after' fs', Loose area r.1 before x after' fs' ∧ r.2 = freeSum a r.1 (before ++ x :: after') ∧
        freeSum a m (before ++ x :: after) ≤ r.2 ∧
        (x ∈ fs' ↔ x ∈ fs) ∧
        (∀ z l, after' ++ [area.tail] = z :: l → isUsed r.1 z = true) ∧
        (∀ q ∈ before, isUsed r.1 q = isUsed m q) ∧
        SameUsed m (before ++ x :: after) r.1 (before ++ x :: after') := by
  intro r
  cases hused : isUsed m (get m .next x) with
  | true =>
    have hr : r = (m, freeSum a m (before ++ x :: after)) := if_pos hused
    rw [hr]
    refine ⟨after, fs, hloose, rfl, le_rfl, Iff.rfl, ?_, fun _ _ => rfl, fun _ => Iff.rfl⟩
    intro z l hz
    have hsplit : before ++ x :: after ++ [area.tail] = before ++ x :: z :: l := by
      rw [append_assoc, cons_append, hz]
    rwa [hloose.rings.next_eq hsplit] at hused
  | false =>
    rcases hloose.rings.next_free rfl hloose.tail_used hused with ⟨after, rfl⟩
    generalize hnext : get m .next x = y at *
    rcases hloose.absorbNext hused with ⟨habsorbed, hsum, -, hkeeps⟩
    have hr : r = (MemHeap.absorbNext m x y,
        freeSum a (MemHeap.absorbNext m x y) (before ++ x :: after)) := by
      rw [hsum, ← hloose.add_header]
      show MemHeap.mergeRight a m x _ = _
      rw [MemHeap.mergeRight, hnext, if_neg (by simp [hused])]
    rw [hr]
    have hnodup := hloose.ordered.nodup
    have hflag : ∀ i ∈ itemSet area.head area.tail (before ++ x :: y :: after),
        isUsed (MemHeap.absorbNext m x y) i = isUsed m i :=
      fun i hi => hkeeps.isUsed_eq (by decide) hi
    have hold : ∀ i ∈ before ++ x :: y :: after,
        isUsed (MemHeap.absorbNext m x y) i = isUsed m i :=
      fun i hi => hflag i (item_mem hi)
    refine ⟨after, fs.erase y, habsorbed, rfl, hsum ▸ Nat.le_add_right _ _, ?_, ?_, ?_, ?_⟩
    · exact mem_erase_of_ne hloose.ordered.ne_next
    · intro z' l' hz'
      have hpair := hloose.right
      rw [cons_append, hz'] at hpair
      have hyz := (isChain_cons_cons.mp hpair).1
      have hzmem : z' ∈ itemSet area.head area.tail (before ++ x :: y :: after) := by
        have hin : z' ∈ after ++ [area.tail] := by
          rw [hz']
          simp
        rw [mem_itemSet]
        grind
      rw [hflag z' hzmem]
      exact hyz.resolve_left (by simp [hused])
    · intro q hq
      exact hold q (by simp [hq])
    · apply (hkeeps.sameUsed (by decide)).trans
      apply sameUsed_remove hnodup
      rw [hold y (by simp)]
      exact hused

end

theorem PoolInv.markFree (hinv : PoolInv area s bs fs) (hbs : bs = before ++ x :: after)
    (hused : isUsed s.memory x = true) :
    let m := set s.memory .magic x (get s.memory .magic x &&& 0xfffffffe)
    Loose area m before x after fs ∧ x ∉ fs ∧ freeSum a m (before ++ x :: after) =
        freeSum a s.memory bs + memitemSize a m x ∧
      ∀ i, (i ∈ before ++ x :: after ∧ isUsed m i = true) ↔
        (i ∈ bs ∧ isUsed s.memory i = true) ∧ i ≠ x := by
  intro m
  have hsize := twentyFour_le_memheapSize a
  have hxbs : x ∈ bs := by simp [hbs]
  have hlt : get s.memory .magic x &&& 0xfffffffe < 4294967296 :=
    lt_of_le_of_lt Nat.and_le_right (by decide)
  rcases hinv.rings.set_magic (item_mem hxbs) hlt with ⟨hrings, hkeeps, hmagic, hframe⟩
  have hfree : isUsed m x = false := isUsed_of_magic_and hmagic
  have hflag : ∀ i ∈ itemSet area.head area.tail bs, i ≠ x → isUsed m i = isUsed s.memory i :=
    fun i hi hne => isUsed_congr (hframe i hi hne)
  have hnext : ∀ i ∈ bs, get m .next i = get s.memory .next i :=
    fun i hi => hkeeps i (item_mem hi) _ (by decide)
  have hxtail : area.tail ≠ x := by
    have := hinv.ordered.le_tail hxbs
    omega
  have hxfs : x ∉ fs := by
    intro hmem
    have hclash := ((hinv.free_iff x).mp hmem).2
    rw [hused] at hclash
    cases hclash
  have hnodup := hinv.ordered.nodup
  have hitem := hrings.memitemSize_eq hinv.ordered hxbs
  have hpair := hinv.noFreePair
  rw [hbs] at hnodup
  rw [hbs, append_assoc, cons_append] at hpair
  have hpairs := isChain_append.mp hpair
  rw [nodup_append, nodup_cons] at hnodup
  have hbefore : ∀ i ∈ before, i ∈ bs ∧ i ≠ x :=
    fun i hi => ⟨by simp [hbs, hi], hnodup.2.2 i hi x mem_cons_self⟩
  have hafter : ∀ i ∈ after, i ∈ bs ∧ i ≠ x :=
    fun i hi => ⟨by simp [hbs, hi], fun heq => hnodup.2.1.1 (heq ▸ hi)⟩
  refine ⟨?_, hxfs, ?_, ?_⟩
  · constructor
    · exact hbs ▸ hinv.ordered
    · exact hbs ▸ hrings
    · exact hfree
    · intro i hne
      rw [hinv.free_iff, ← hbs]
      constructor
      · rintro ⟨hi, hifree⟩
        exact ⟨hi, (hflag i (item_mem hi) hne).trans hifree⟩
      · rintro ⟨hi, hifree⟩
        exact ⟨hi, (hflag i (item_mem hi) hne).symm.trans hifree⟩
    · exact (hflag _ tail_mem hxtail).trans hinv.tail_used
    · apply NoFreePair.mono hpairs.1
      intro i hi hiused
      rcases hbefore i hi with ⟨hibs, hne⟩
      exact (hflag i (item_mem hibs) hne).trans hiused
    · apply NoFreePair.mono hpairs.2.1.tail
      intro i hi hiused
      rw [tail_cons] at hi
      rcases mem_append.mp hi with hi | hi
      · rcases hafter i hi with ⟨hibs, hne⟩
        exact (hflag i (item_mem hibs) hne).trans hiused
      · rw [mem_singleton.mp hi] at hiused ⊢
        exact (hflag _ tail_mem hxtail).trans hiused
    · intro i hi
      rw [← hbs] at hi
      rw [hkeeps i (item_mem hi) _ (by decide)]
      exact hinv.poolPtr_eq i hi
  · have hkept : ∀ i ∈ bs, i ≠ x → isUsed m i = isUsed s.memory i ∧
        get m .next i = get s.memory .next i :=
      fun i hi hne => ⟨hflag i (item_mem hi) hne, hnext i hi⟩
    have hreplace := freeSum_replace (a := a) before [] [x] after (hbs ▸ hinv.ordered.nodup)
      (hbs ▸ hkept)
    simp only [cons_append, nil_append, freeSum_cons, freeSum_nil, freeBytes, hused,
      hfree, Bool.false_eq_true, if_false, if_true] at hreplace
    rw [hbs, hitem]
    omega
  · intro i
    rw [← hbs]
    by_cases hix : i = x
    · simp [hix, hfree]
    · constructor
      · rintro ⟨hi, hiused⟩
        exact ⟨⟨hi, (hflag i (item_mem hi) hix).symm.trans hiused⟩, hix⟩
      · rintro ⟨⟨hi, hiused⟩, -⟩
        exact ⟨hi, (hflag i (item_mem hi) hix).trans hiused⟩

theorem Loose.finish {h : RtMemheap} {insertHeader : Bool} (hloose : Loose area m before x after fs)
    (hinsert : x ∈ fs ↔ insertHeader = false) (hleft : ∀ l q, before = l ++ [q] → isUsed m q = true)
    (hright : ∀ z l, after ++ [area.tail] = z :: l → isUsed m z = true)
    (hlist : h.freeList = area.head) (hpool : h.poolSize = area.poolSize)
    (havailable : h.availableSize = freeSum a m (before ++ x :: after))
    (hmax : h.poolSize - h.availableSize ≤ h.maxUsedSize) :
    let m' := if insertHeader then MemHeap.pushFree m area.head x else m
    (∃ fs', PoolInv area (s.update area.heap m' h) (before ++ x :: after) fs') ∧
      SameUsed m (before ++ x :: after) m' (before ++ x :: after) ∧
      ∀ i ∈ before ++ x :: after, get m' .next i = get m .next i := by
  intro m'
  cases insertHeader with
  | false =>
    have hx : x ∈ fs := hinsert.mpr rfl
    refine ⟨⟨fs, ?_⟩, fun i => Iff.rfl, fun _ _ => rfl⟩
    exact hloose.poolInv hx hleft hright hlist hpool havailable hmax
  | true =>
    have hx : x ∉ fs := fun hmem => absurd (hinsert.mp hmem) (by decide)
    rcases hloose.pushFree hx with ⟨hpushed, hkeeps⟩
    have hm' : m' = MemHeap.pushFree m area.head x := rfl
    rw [← hm'] at hpushed hkeeps
    have hflag : ∀ i ∈ itemSet area.head area.tail (before ++ x :: after),
        isUsed m' i = isUsed m i :=
      fun i hi => hkeeps.isUsed_eq (by decide) hi
    have hnext : ∀ i ∈ before ++ x :: after, get m' .next i = get m .next i :=
      fun i hi => hkeeps i (item_mem hi) _ (by decide)
    have hsum : freeSum a m' (before ++ x :: after) = freeSum a m (before ++ x :: after) :=
      freeSum_congr (fun i hi => hflag i (item_mem hi)) hnext
    refine ⟨⟨x :: fs, ?_⟩, hkeeps.sameUsed (by decide), hnext⟩
    apply hpushed.poolInv mem_cons_self _ _ hlist hpool (havailable.trans hsum.symm) hmax
    · intro l q hlast
      rw [hflag q (item_mem (by simp [hlast]))]
      exact hleft l q hlast
    · intro z l hz
      have hzA : z ∈ itemSet area.head area.tail (before ++ x :: after) := by
        have hin : z ∈ after ++ [area.tail] := by
          rw [hz]
          simp
        rw [mem_itemSet]
        grind
      rw [hflag z hzA]
      exact hright z l hz

theorem PoolInv.add_available (hinv : PoolInv area s bs fs)
    (hloose : Loose area m before x after fs) (hsum : freeSum a m (before ++ x :: after) =
      freeSum a s.memory bs + memitemSize a m x) :
    add32 (s.heaps area.heap).availableSize (memitemSize a m x) =
      freeSum a m (before ++ x :: after) := by
  have hsize := twentyFour_le_memheapSize a
  have hbound := hloose.rings.freeSum_le hloose.ordered
  have hend := area.tail_fits
  rw [hinv.available_eq, hsum]
  exact add32_eq_of_lt (by lia)

theorem PoolInv.rtMemheapFree (hinv : PoolInv area s bs fs) (hx : x ∈ bs)
    (hused : isUsed s.memory x = true) :
    ∃ bs' fs', PoolInv area (rtMemheapFree a s (x + memheapSize a)) bs' fs' ∧ ∀ i, (i ∈ bs' ∧
          isUsed (MemHeap.rtMemheapFree a s (x + memheapSize a)).memory i = true) ↔
        (i ∈ bs ∧ isUsed s.memory i = true) ∧ i ≠ x := by
  have hsize := twentyFour_le_memheapSize a
  have hnull : ¬x + memheapSize a = rtNull := by
    unfold rtNull
    lia
  have hheader : x + memheapSize a - memheapSize a = x := by lia
  rcases append_of_mem hx with ⟨before, after, hbs⟩
  rcases hinv.markFree hbs hused with ⟨hloose, hxfs, hsum, husedIff⟩
  unfold MemHeap.rtMemheapFree
  simp only [if_neg hnull, hheader, hinv.poolPtr_eq x hx]
  generalize set s.memory .magic x (get s.memory .magic x &&& 0xfffffffe) = m at *
  rw [hinv.add_available hloose hsum, hinv.freeList_eq]
  rcases hloose.mergeLeft hxfs with
    ⟨before', hloose₁, hsum₁, hle₁, hinsert₁, hleft₁, hsame₁⟩
  generalize MemHeap.mergeLeft a m x (freeSum a m (before ++ x :: after)) = left at *
  rw [hsum₁]
  rcases hloose₁.mergeRight with
    ⟨after', fs', hloose₂, hsum₂, hle₂, hinsert₂, hright₂, hflag₂, hsame₂⟩
  generalize MemHeap.mergeRight a left.1 left.2.1
    (freeSum a left.1 (before' ++ left.2.1 :: after)) = right at *
  have hmax : (s.heaps area.heap).poolSize - right.2 ≤ (s.heaps area.heap).maxUsedSize := by
    have hmaxUsed := hinv.maxUsed_le
    have havail := hinv.available_eq
    lia
  have hinsert : left.2.1 ∈ fs' ↔ isUsed m (get m .prev x) = false := hinsert₂.trans hinsert₁
  have hleft₂ : ∀ l q, before' = l ++ [q] → isUsed right.1 q = true := by
    intro l q hlast
    rw [hflag₂ q (by simp [hlast])]
    exact hleft₁ l q hlast
  rcases hloose₂.finish (s := s) (h := setAvailable (s.heaps area.heap) right.2)
    hinsert hleft₂ hright₂ hinv.freeList_eq hinv.poolSize_eq hsum₂ hmax
    with ⟨⟨fs'', hinv'⟩, hsame₃, -⟩
  refine ⟨_, fs'', hinv', ?_⟩
  intro i
  rw [← husedIff i]
  exact ((hsame₁.trans hsame₂).trans hsame₃) i

end RtThread.MemHeap
