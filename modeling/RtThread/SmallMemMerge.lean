import RtThread.SmallMemBlocks

/-!
# Joining free blocks

`plug_holes` joins a free block with its free neighbours.  Each join keeps the
used blocks, their sizes and the statistics, and moves `lfree` only when the
block it points to disappears; `Coarsens` collects these facts so that the two
joins compose.
-/

namespace RtThread.SmallMem

open List Word

def NoFreePair (h : Heap) (l : List ℕ) : Prop :=
  l.IsChain fun x y => (h.header x).used ≠ 0 ∨ (h.header y).used ≠ 0

def LfreeValid (h : Heap) (bs : List ℕ) : Prop :=
  h.lfree = h.heapEnd ∨ (h.lfree ∈ bs ∧ (h.header h.lfree).used = 0)

def LfreeLowest (h : Heap) (bs : List ℕ) : Prop :=
  ∀ b ∈ bs, (h.header b).used = 0 → h.lfree ≤ b

def usedBlocks (h : Heap) (bs : List ℕ) : List ℕ :=
  bs.filter fun b => decide ((h.header b).used ≠ 0)

def usedSum (h : Heap) (bs : List ℕ) : ℕ :=
  ((usedBlocks h bs).map fun b => (h.header b).next - b).sum

theorem mem_usedBlocks {h : Heap} {bs : List ℕ} {b : ℕ} :
    b ∈ usedBlocks h bs ↔ b ∈ bs ∧ (h.header b).used ≠ 0 := by
  simp [usedBlocks]

theorem usedBlocks_append (h : Heap) (l l' : List ℕ) :
    usedBlocks h (l ++ l') = usedBlocks h l ++ usedBlocks h l' := by
  simp [usedBlocks]

theorem usedBlocks_cons_free {h : Heap} {x : ℕ} (hfree : (h.header x).used = 0) (l : List ℕ) :
    usedBlocks h (x :: l) = usedBlocks h l := by
  simp [usedBlocks, hfree]

theorem usedBlocks_cons_used {h : Heap} {x : ℕ} (hused : (h.header x).used ≠ 0) (l : List ℕ) :
    usedBlocks h (x :: l) = x :: usedBlocks h l := by
  simp [usedBlocks, hused]

theorem usedBlocks_congr {h h' : Heap} {l : List ℕ}
    (hused : ∀ b ∈ l, (h'.header b).used = (h.header b).used) :
    usedBlocks h' l = usedBlocks h l := by
  apply filter_congr
  intro b hb
  rw [hused b hb]

theorem NoFreePair.congr {h h' : Heap} {l : List ℕ} (hpair : NoFreePair h l)
    (hused : ∀ b ∈ l, (h'.header b).used = (h.header b).used) : NoFreePair h' l := by
  apply isChain_of_neighbours hpair
  intro x y hx hy hxy
  rwa [hused x (dropLast_subset _ hx), hused y (mem_of_mem_tail hy)]

theorem usedSum_eq_of_usedBlocks {h h' : Heap} {bs bs' : List ℕ}
    (hused : usedBlocks h' bs' = usedBlocks h bs)
    (hnext : ∀ b ∈ usedBlocks h bs, (h'.header b).next = (h.header b).next) :
    usedSum h' bs' = usedSum h bs := by
  have hmap : (usedBlocks h bs).map (fun b => (h'.header b).next - b) =
      (usedBlocks h bs).map fun b => (h.header b).next - b := by
    apply map_congr_left
    intro b hb
    rw [hnext b hb]
  rw [usedSum, usedSum, hused, hmap]

/-- The heap `h'` with chain `bs'` has the same used blocks as `h` with chain
`bs`, and its free blocks arise from those of `h` by joining neighbours. -/
structure Coarsens (a : AlignSize) (h : Heap) (bs : List ℕ) (h' : Heap) (bs' : List ℕ) : Prop where
  blocks : Blocks a h' bs'
  heapPtr_eq : h'.heapPtr = h.heapPtr
  heapEnd_eq : h'.heapEnd = h.heapEnd
  memSizeAligned_eq : h'.memSizeAligned = h.memSizeAligned
  usedMem_eq : h'.usedMem = h.usedMem
  maxMem_eq : h'.maxMem = h.maxMem
  used_eq : usedBlocks h' bs' = usedBlocks h bs
  next_eq : ∀ b ∈ usedBlocks h bs, (h'.header b).next = (h.header b).next
  lfreeValid : LfreeValid h bs → LfreeValid h' bs'
  lfreeLowest : LfreeLowest h bs → LfreeLowest h' bs'

namespace Coarsens

variable {a : AlignSize} {h h' h'' : Heap} {bs bs' bs'' : List ℕ}

theorem refl (hblocks : Blocks a h bs) : Coarsens a h bs h bs :=
  ⟨hblocks, rfl, rfl, rfl, rfl, rfl, rfl, fun _ _ => rfl, id, id⟩

theorem trans (hfirst : Coarsens a h bs h' bs') (hsecond : Coarsens a h' bs' h'' bs'') :
    Coarsens a h bs h'' bs'' := by
  constructor
  · exact hsecond.blocks
  · exact hsecond.heapPtr_eq.trans hfirst.heapPtr_eq
  · exact hsecond.heapEnd_eq.trans hfirst.heapEnd_eq
  · exact hsecond.memSizeAligned_eq.trans hfirst.memSizeAligned_eq
  · exact hsecond.usedMem_eq.trans hfirst.usedMem_eq
  · exact hsecond.maxMem_eq.trans hfirst.maxMem_eq
  · exact hsecond.used_eq.trans hfirst.used_eq
  · intro b hb
    rw [hsecond.next_eq b (hfirst.used_eq ▸ hb), hfirst.next_eq b hb]
  · exact fun hvalid => hsecond.lfreeValid (hfirst.lfreeValid hvalid)
  · exact fun hlow => hsecond.lfreeLowest (hfirst.lfreeLowest hlow)

theorem usedSum_eq (hcoarse : Coarsens a h bs h' bs') : usedSum h' bs' = usedSum h bs :=
  usedSum_eq_of_usedBlocks hcoarse.used_eq hcoarse.next_eq

end Coarsens

variable {a : AlignSize} {h : Heap} {bs before after : List ℕ} {x y : ℕ}

section

variable (hblocks : Blocks a h bs)
include hblocks

theorem coarsens_combine
    (hbs : bs = before ++ x :: y :: after)
    (hx : (h.header x).used = 0) (hy : (h.header y).used = 0) :
    Coarsens a h bs (combine h x y) (before ++ x :: after) := by
  rcases hblocks.combine_fields hbs with ⟨-, -, hframe⟩
  rcases combine_static h x y with ⟨hptr, hend, hsize, hused, hmax⟩
  have hlfree := combine_lfree h x y
  have hxy : x < y := by
    have hsplit : bs = (before ++ [x]) ++ y :: after := by
      rw [hbs]
      simp
    rcases hblocks.around hsplit with ⟨-, -, hbefore, -, -, -⟩
    have := hbefore x (by simp)
    have := twelve_le_sizeofStructMem a
    omega
  have hsub : ∀ b ∈ before ++ x :: after, b ∈ bs := by
    intro b hb
    rw [hbs]
    simp only [mem_append, mem_cons] at hb ⊢
    exact hb.imp_right (Or.imp_right .inr)
  have hflag : ∀ b ∈ bs, ((combine h x y).header b).used = (h.header b).used :=
    fun b hb => (hframe b (mem_append_left _ hb)).1
  have hxmem : x ∈ before ++ x :: after := by simp
  constructor
  · exact hblocks.combine hbs
  · exact hptr
  · exact hend
  · exact hsize
  · exact hused
  · exact hmax
  · rw [usedBlocks_congr fun b hb => hflag b (hsub b hb), hbs]
    simp only [usedBlocks_append, usedBlocks_cons_free hx, usedBlocks_cons_free hy]
  · intro b hb
    rw [mem_usedBlocks] at hb
    apply (hframe b (mem_append_left _ hb.1)).2.1
    intro heq
    exact hb.2 (heq ▸ hx)
  · intro hvalid
    unfold LfreeValid
    rw [hlfree, hend]
    by_cases heq : h.lfree = y
    · rw [if_pos heq]
      exact .inr ⟨hxmem, (hflag x (hsub x hxmem)).trans hx⟩
    · rw [if_neg heq]
      rcases hvalid with hvalid | ⟨hmem, hfree⟩
      · exact .inl hvalid
      · refine .inr ⟨?_, (hflag _ hmem).trans hfree⟩
        rw [hbs] at hmem
        simp only [mem_append, mem_cons] at hmem ⊢
        rcases hmem with hmem | hmem | hmem | hmem
        · exact .inl hmem
        · exact .inr (.inl hmem)
        · contradiction
        · exact .inr (.inr hmem)
  · intro hlow b hb hfree
    rw [hflag b (hsub b hb)] at hfree
    have hle := hlow b (hsub b hb) hfree
    rw [hlfree]
    split_ifs with heq
    · omega
    · exact hle

theorem plugForward
    (hbs : bs = before ++ x :: after)
    (hx : (h.header x).used = 0) (hright : NoFreePair h after) :
    let h' :=
      if x ≠ (h.header x).next ∧ (h.header (h.header x).next).used = 0 ∧
          (h.header x).next ≠ h.heapEnd then combine h x (h.header x).next
      else h
    ∃ after', Coarsens a h bs h' (before ++ x :: after') ∧
      NoFreePair h' (x :: after') ∧
      ∀ b ∈ before ++ [x], (h'.header b).used = (h.header b).used ∧
        (h'.header b).prev = (h.header b).prev := by
  have hsize := twelve_le_sizeofStructMem a
  rcases hblocks.around hbs with ⟨rest, hrest, hbefore, hgap, -, -⟩
  intro h'
  cases after with
  | nil =>
      have hend : (h.header x).next = h.heapEnd := by
        simp only [nil_append, cons.injEq] at hrest
        exact hrest.1.symm
      have hsame : h' = h := if_neg (by simp [hend])
      rw [hsame]
      refine ⟨[], hbs ▸ Coarsens.refl hblocks, .singleton x, ?_⟩
      intro b _
      exact ⟨rfl, rfl⟩
  | cons y after =>
      have hnext : (h.header x).next = y := by
        rw [cons_append, cons.injEq] at hrest
        exact hrest.1.symm
      by_cases hy : (h.header y).used = 0
      · have hyend : y ≠ h.heapEnd := by
          intro heq
          exact hblocks.used_end (heq ▸ hy)
        have hjoin : h' = combine h x y := by
          have hcond : x ≠ (h.header x).next ∧
              (h.header (h.header x).next).used = 0 ∧
              (h.header x).next ≠ h.heapEnd := by
            rw [hnext] at hgap ⊢
            exact ⟨by omega, hy, hyend⟩
          rw [← hnext]
          exact if_pos hcond
        rw [hjoin]
        have hcoarse := coarsens_combine hblocks hbs hx hy
        rcases hblocks.combine_fields hbs with ⟨-, -, hframe⟩
        have hflag : ∀ b ∈ bs, ((combine h x y).header b).used = (h.header b).used :=
          fun b hb => (hframe b (mem_append_left _ hb)).1
        refine ⟨after, hcoarse, ?_, ?_⟩
        · have hpair : NoFreePair h (x :: after) := by
            cases after with
            | nil => exact .singleton x
            | cons z after =>
                have hyz := isChain_cons_cons.mp hright
                apply isChain_cons_cons.mpr
                exact ⟨.inr (hyz.1.resolve_left (by simp [hy])), hyz.2⟩
          apply hpair.congr
          intro b hb
          apply hflag b
          rw [hbs]
          simp only [mem_append, mem_cons] at hb ⊢
          exact .inr (hb.imp_right .inr)
        · intro b hb
          have hmem : b ∈ bs := by
            rw [hbs]
            simp only [mem_append, mem_cons, not_mem_nil, or_false] at hb ⊢
            exact hb.imp_right .inl
          refine ⟨hflag b hmem, (hframe b (mem_append_left _ hmem)).2.2 ?_⟩
          have hbs' : bs = (before ++ [x]) ++ y :: after := by
            rw [hbs]
            simp
          rcases hblocks.around hbs' with ⟨-, -, hbefore', hygap, -, -⟩
          have := hbefore' b hb
          omega
      · have hsame : h' = h := by
          apply if_neg
          rw [hnext]
          exact fun hcond => hy hcond.2.1
        rw [hsame]
        refine ⟨y :: after, hbs ▸ Coarsens.refl hblocks, ?_, ?_⟩
        · exact isChain_cons_cons.mpr ⟨.inr hy, hright⟩
        · intro b _
          exact ⟨rfl, rfl⟩

theorem Blocks.prev_eq
    (hbs : bs = before ++ x :: y :: after) :
    (h.header y).prev = x := by
  have hchain := hblocks.chain
  rw [hbs, show before ++ x :: y :: after ++ [h.heapEnd] =
    before ++ x :: y :: (after ++ [h.heapEnd]) by simp] at hchain
  apply (isChain_append_cons_cons.mp hchain).2.1.prev_eq
  intro heq
  apply hblocks.end_not_mem
  rw [← heq, hbs]
  simp

theorem plugBackward
    (hbs : bs = before ++ x :: after)
    (hx : (h.header x).used = 0) (hleft : NoFreePair h before)
    (hright : NoFreePair h (x :: after)) :
    let h' :=
      if (h.header x).prev ≠ x ∧ (h.header (h.header x).prev).used = 0 then
        combine h (h.header x).prev x
      else h
    ∃ bs', Coarsens a h bs h' bs' ∧ NoFreePair h' bs' := by
  intro h'
  rcases eq_nil_or_concat before with hnil | ⟨before', p, hconcat⟩
  · have hzero : x = 0 := by
      have hfirst := hblocks.first
      rw [hbs, hnil] at hfirst
      simpa using hfirst
    have hprev : (h.header x).prev = x := by
      rw [hzero, hblocks.prev_first]
    have hsame : h' = h := if_neg (by simp [hprev])
    rw [hsame]
    refine ⟨bs, Coarsens.refl hblocks, ?_⟩
    rw [hbs, hnil]
    exact hright
  · rw [concat_eq_append] at hconcat
    have hbs' : bs = before' ++ p :: x :: after := by
      rw [hbs, hconcat]
      simp
    have hprev : (h.header x).prev = p := hblocks.prev_eq hbs'
    have hne : p ≠ x := by
      intro heq
      have hnodup := hblocks.nodup
      rw [hbs', heq, nodup_append] at hnodup
      exact absurd hnodup.2.1 (by simp)
    rw [hconcat] at hleft
    by_cases hp : (h.header p).used = 0
    · have hjoin : h' = combine h p x := by
        have hcond : (h.header x).prev ≠ x ∧ (h.header (h.header x).prev).used = 0 := by
          rw [hprev]
          exact ⟨hne, hp⟩
        rw [← hprev]
        exact if_pos hcond
      rw [hjoin]
      rcases hblocks.combine_fields hbs' with ⟨-, -, hframe⟩
      refine ⟨before' ++ p :: after, coarsens_combine hblocks hbs' hp hx, ?_⟩
      have hpair : NoFreePair h (before' ++ p :: after) := by
        cases after with
        | nil => exact hleft
        | cons z after =>
            have hxz := isChain_cons_cons.mp hright
            apply isChain_append_cons_cons.mpr
            exact ⟨hleft, .inr (hxz.1.resolve_left (by simp [hx])), hxz.2⟩
      apply hpair.congr
      intro b hb
      apply (hframe b (mem_append_left _ _)).1
      rw [hbs']
      simp only [mem_append, mem_cons] at hb ⊢
      exact hb.imp_right (Or.imp_right .inr)
    · have hsame : h' = h := by
        apply if_neg
        rw [hprev]
        exact fun hcond => hp hcond.2
      rw [hsame]
      refine ⟨bs, Coarsens.refl hblocks, ?_⟩
      rw [hbs']
      exact isChain_append_cons_cons.mpr ⟨hleft, .inl hp, hright⟩

theorem coarsens_plugHoles
    (hbs : bs = before ++ x :: after)
    (hx : (h.header x).used = 0) (hleft : NoFreePair h before)
    (hright : NoFreePair h after) :
    ∃ bs', Coarsens a h bs (plugHoles h x) bs' ∧ NoFreePair (plugHoles h x) bs' := by
  rcases plugForward hblocks hbs hx hright with ⟨after', hcoarse, hpair, hframe⟩
  generalize hforward : (if x ≠ (h.header x).next ∧
    (h.header (h.header x).next).used = 0 ∧ (h.header x).next ≠ h.heapEnd
    then combine h x (h.header x).next else h) = h₁ at hcoarse hpair hframe
  have hx₁ : (h₁.header x).used = 0 := ((hframe x (by simp)).1).trans hx
  have hleft₁ : NoFreePair h₁ before := by
    apply hleft.congr
    intro b hb
    exact (hframe b (by simp [hb])).1
  rcases plugBackward hcoarse.blocks rfl hx₁ hleft₁ hpair with ⟨bs', hcoarse', hpair'⟩
  refine ⟨bs', ?_⟩
  unfold plugHoles
  simp only [hforward]
  exact ⟨hcoarse.trans hcoarse', hpair'⟩

end

end RtThread.SmallMem
