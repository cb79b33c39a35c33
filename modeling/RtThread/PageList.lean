import RtThread.GuardedRun
import RtThread.KernelDefs

/-!
# The page allocator

The free pages below the slab heap form a list of runs.  `rt_page_alloc` takes the front of
the first run which is long enough; `rt_page_free` walks to the place of the freed run and
merges it with the runs that it touches.  Pages are numbered by their address divided by
`RT_MM_PAGE_SIZE`, so that adding to a page number is the pointer arithmetic of the source.
-/

namespace RtThread.Slab

open List Option Word

structure RtPageHead where
  start : ℕ
  page : ℕ
  deriving DecidableEq

namespace RtPageHead

def behind (b : RtPageHead) : ℕ := b.start + b.page

def pages (b : RtPageHead) : List ℕ := List.range' b.start b.page

end RtPageHead

def takePages (npages : ℕ) : List RtPageHead → Option ℕ × List RtPageHead
  | [] => (none, [])
  | b :: rest =>
    if npages < b.page then
      (some b.start, ⟨b.start + npages, b.page - npages⟩ :: rest)
    else if b.page = npages then (some b.start, rest)
    else ((takePages npages rest).1, b :: (takePages npages rest).2)

def putPages (n npages : ℕ) : List RtPageHead → List RtPageHead
  | [] => [⟨n, npages⟩]
  | b :: rest =>
    if b.start + b.page = n then
      match rest with
      | next :: rest' =>
        if b.start + (b.page + npages) = next.start then
          ⟨b.start, b.page + npages + next.page⟩ :: rest'
        else ⟨b.start, b.page + npages⟩ :: rest
      | [] => [⟨b.start, b.page + npages⟩]
    else if b.start = n + npages then ⟨n, b.page + npages⟩ :: rest
    else if n + npages < b.start then ⟨n, npages⟩ :: b :: rest
    else b :: putPages n npages rest

/-- The state of the page allocator; `heapSem` is the value of the semaphore. -/
structure PageHeap where
  rtPageList : List RtPageHead
  heapSem : BitVec 16
  deriving DecidableEq

namespace PageHeap

/-- `rt_sem_take` on `heap_sem`; `none` is a caller which waits for ever. -/
def take (s : PageHeap) : Option PageHeap :=
  if s.heapSem = 0 then none else some { s with heapSem := s.heapSem - 1 }

def release (s : PageHeap) : PageHeap :=
  { s with heapSem := s.heapSem + 1 }

end PageHeap

def rtPageAlloc (s : PageHeap) (npages : ℕ) : Option (PageHeap × Option ℕ) :=
  if npages = 0 then some (s, none)
  else do
    let s ← s.take
    let found := takePages npages s.rtPageList
    some ({ s with rtPageList := found.2 }.release, found.1)

def rtPageFree (s : PageHeap) (n npages : ℕ) : Option PageHeap := do
  let s ← s.take
  some { s with rtPageList := putPages n npages s.rtPageList }.release

def rtPageInit (s : PageHeap) (n npages : ℕ) : Option PageHeap :=
  rtPageFree { s with rtPageList := [] } n npages

structure Separate (bs : List RtPageHead) : Prop where
  apart : bs.Pairwise fun b c => b.behind < c.start
  pos : ∀ b ∈ bs, 0 < b.page

def pagesOf (bs : List RtPageHead) : List ℕ := bs.flatMap RtPageHead.pages

variable {bs rest : List RtPageHead} {b c : RtPageHead} {n npages start len p : ℕ}

@[simp] theorem pagesOf_nil : pagesOf [] = [] := rfl

@[simp] theorem pagesOf_cons : pagesOf (b :: bs) = b.pages ++ pagesOf bs := rfl

theorem mem_pages : p ∈ b.pages ↔ b.start ≤ p ∧ p < b.behind := by
  exact mem_range'_1

theorem mem_pagesOf : p ∈ pagesOf bs ↔ ∃ b ∈ bs, b.start ≤ p ∧ p < b.behind := by
  unfold pagesOf
  simp only [mem_flatMap, mem_pages]

theorem behind_le_or_le (hb : 0 < b.page) (hc : 0 < c.page)
    (hdisjoint : ∀ p, (b.start ≤ p ∧ p < b.behind) → ¬(c.start ≤ p ∧ p < c.behind)) :
    b.behind ≤ c.start ∨ c.behind ≤ b.start := by
  by_contra hmeet
  apply hdisjoint (max b.start c.start)
  · unfold RtPageHead.behind at hmeet ⊢
    omega
  · unfold RtPageHead.behind at hmeet ⊢
    omega

theorem range'_split (start k l : ℕ) :
    List.range' start (k + l) = List.range' start k ++ List.range' (start + k) l :=
  (range'_append_1).symm

namespace Separate

theorem nil : Separate [] := ⟨Pairwise.nil, by simp⟩

theorem tail (hsep : Separate (b :: bs)) : Separate bs :=
  ⟨(pairwise_cons.mp hsep.apart).2, fun c hc => hsep.pos c (mem_cons_of_mem _ hc)⟩

theorem behind_lt (hsep : Separate (b :: bs)) (hc : c ∈ bs) : b.behind < c.start :=
  (pairwise_cons.mp hsep.apart).1 c hc

theorem head_pos (hsep : Separate (b :: bs)) : 0 < b.page := hsep.pos b mem_cons_self

theorem cons (hpos : 0 < b.page) (hbehind : ∀ c ∈ bs, b.behind < c.start)
    (hsep : Separate bs) : Separate (b :: bs) := by
  constructor
  · exact pairwise_cons.mpr ⟨hbehind, hsep.apart⟩
  · intro c hc
    obtain rfl | hc := mem_cons.mp hc
    · exact hpos
    · exact hsep.pos c hc

end Separate

theorem mem_takePages (hc : c ∈ (takePages npages bs).2) :
    ∃ b ∈ bs, b.start ≤ c.start ∧ c.behind = b.behind := by
  induction bs with
  | nil => simp [takePages] at hc
  | cons b rest ih =>
    unfold takePages at hc
    split_ifs at hc with hlt heq
    · obtain rfl | hc := mem_cons.mp hc
      · refine ⟨b, mem_cons_self, ?_, ?_⟩
        · simp
        · simp only [RtPageHead.behind]
          omega
      · exact ⟨c, mem_cons_of_mem _ hc, le_rfl, rfl⟩
    · exact ⟨c, mem_cons_of_mem _ hc, le_rfl, rfl⟩
    · obtain rfl | hc := mem_cons.mp hc
      · exact ⟨c, mem_cons_self, le_rfl, rfl⟩
      · obtain ⟨d, hd, hle⟩ := ih hc
        exact ⟨d, mem_cons_of_mem _ hd, hle⟩

theorem Separate.takePages (hsep : Separate bs) : Separate (takePages npages bs).2 := by
  induction bs with
  | nil => exact hsep
  | cons b rest ih =>
    unfold Slab.takePages
    split_ifs with hlt heq
    · apply Separate.cons
      · simp only
        omega
      · intro c hc
        have hbehind := hsep.behind_lt hc
        simp only [RtPageHead.behind] at hbehind ⊢
        omega
      · exact hsep.tail
    · exact hsep.tail
    · apply Separate.cons hsep.head_pos _ (ih hsep.tail)
      intro c hc
      obtain ⟨d, hd, hle, -⟩ := mem_takePages hc
      exact (hsep.behind_lt hd).trans_le hle

theorem pagesOf_takePages (hfound : (takePages npages bs).1 = some p) :
    (pagesOf bs).Perm (List.range' p npages ++ pagesOf (takePages npages bs).2) := by
  induction bs with
  | nil => simp [takePages] at hfound
  | cons b rest ih =>
    unfold takePages at hfound ⊢
    split_ifs at hfound ⊢ with hlt heq
    · have hp : b.start = p := some.inj hfound
      subst hp
      have hsplit := range'_split b.start npages (b.page - npages)
      rw [Nat.add_sub_cancel' hlt.le] at hsplit
      simp only [pagesOf_cons, RtPageHead.pages, hsplit, append_assoc]
      exact Perm.refl _
    · have hp : b.start = p := some.inj hfound
      subst hp
      simp only [pagesOf_cons, RtPageHead.pages, heq]
      exact Perm.refl _
    · simp only [pagesOf_cons]
      calc
        (b.pages ++ pagesOf rest).Perm
            (b.pages ++ (List.range' p npages ++ pagesOf (takePages npages rest).2)) :=
          (ih hfound).append_left _
        _ = (b.pages ++ List.range' p npages) ++ pagesOf (takePages npages rest).2 :=
          (append_assoc _ _ _).symm
        List.Perm _ ((List.range' p npages ++ b.pages) ++ pagesOf (takePages npages rest).2) :=
          perm_append_comm.append_right _
        _ = List.range' p npages ++ (b.pages ++ pagesOf (takePages npages rest).2) :=
          append_assoc _ _ _

/-- Pages are refused only when no run is long enough. -/
theorem takePages_eq_none_iff : (takePages npages bs).1 = none ↔ ∀ b ∈ bs, b.page < npages := by
  induction bs with
  | nil => simp [takePages]
  | cons b rest ih =>
    unfold takePages
    split_ifs with hlt heq
    · simp only [mem_cons, forall_eq_or_imp, false_iff, not_and]
      omega
    · simp only [mem_cons, forall_eq_or_imp, false_iff, not_and]
      omega
    · simp only [mem_cons, forall_eq_or_imp, ih, iff_and_self]
      omega

theorem takePages_of_none (hnone : (takePages npages bs).1 = none) :
    (takePages npages bs).2 = bs := by
  induction bs with
  | nil => rfl
  | cons b rest ih =>
    unfold takePages at hnone ⊢
    split_ifs at hnone ⊢ with hlt heq
    rw [ih hnone]

def Apart (bs : List RtPageHead) (n npages : ℕ) : Prop :=
  ∀ b ∈ bs, b.behind ≤ n ∨ n + npages ≤ b.start

theorem start_of_mem_putPages (hc : c ∈ putPages n npages bs) :
    c.start = n ∨ ∃ b ∈ bs, c.start = b.start := by
  induction bs with
  | nil =>
    left
    rw [mem_singleton.mp hc]
  | cons b rest ih =>
    unfold putPages at hc
    split_ifs at hc with hpred hsucc hlt
    · right
      cases rest with
      | nil =>
        rw [mem_singleton.mp hc]
        exact ⟨b, mem_cons_self, rfl⟩
      | cons next rest' =>
        simp only at hc
        split_ifs at hc with htouch
        · obtain rfl | hc := mem_cons.mp hc
          · exact ⟨b, mem_cons_self, rfl⟩
          · exact ⟨c, mem_cons_of_mem _ (mem_cons_of_mem _ hc), rfl⟩
        · obtain rfl | hc := mem_cons.mp hc
          · exact ⟨b, mem_cons_self, rfl⟩
          · exact ⟨c, mem_cons_of_mem _ hc, rfl⟩
    · obtain rfl | hc := mem_cons.mp hc
      · exact .inl rfl
      · exact .inr ⟨c, mem_cons_of_mem _ hc, rfl⟩
    · obtain rfl | hc := mem_cons.mp hc
      · exact .inl rfl
      · exact .inr ⟨c, hc, rfl⟩
    · obtain rfl | hc := mem_cons.mp hc
      · exact .inr ⟨c, mem_cons_self, rfl⟩
      · obtain heq | ⟨d, hd, heq⟩ := ih hc
        · exact .inl heq
        · exact .inr ⟨d, mem_cons_of_mem _ hd, heq⟩

theorem Separate.putPages (hsep : Separate bs) (hapart : Apart bs n npages)
    (hpos : 0 < npages) : Separate (putPages n npages bs) := by
  induction bs with
  | nil => exact Separate.cons hpos (by simp) Separate.nil
  | cons b rest ih =>
    have hb := hapart b mem_cons_self
    have hbpos := hsep.head_pos
    unfold Slab.putPages
    unfold RtPageHead.behind at hb
    split_ifs with hpred hsucc hlt
    · -- the run is merged with its predecessor, and perhaps with its successor
      cases rest with
      | nil => exact Separate.cons (by simp only; lia) (by simp) Separate.nil
      | cons next rest' =>
        have hnext := hapart next (by simp)
        have hbnext := hsep.behind_lt (mem_cons_self (a := next))
        simp only [RtPageHead.behind] at hnext hbnext
        simp only
        split_ifs with htouch
        · apply Separate.cons (by simp only; lia) _ hsep.tail.tail
          intro c hc
          have hbehind := hsep.tail.behind_lt hc
          simp only [RtPageHead.behind] at hbehind ⊢
          lia
        · apply Separate.cons (by simp only; lia) _ hsep.tail
          intro c hc
          obtain rfl | hc := mem_cons.mp hc
          · simp only [RtPageHead.behind]
            lia
          · have hbehind := hsep.tail.behind_lt hc
            simp only [RtPageHead.behind] at hbehind ⊢
            lia
    · apply Separate.cons (by simp only; lia) _ hsep.tail
      intro c hc
      have hbehind := hsep.behind_lt hc
      simp only [RtPageHead.behind] at hbehind ⊢
      lia
    · apply Separate.cons hpos _ hsep
      intro c hc
      obtain rfl | hc := mem_cons.mp hc
      · exact hlt
      · have hbehind := hsep.behind_lt hc
        simp only [RtPageHead.behind] at hbehind ⊢
        lia
    · have hrest : Apart rest n npages := fun c hc => hapart c (mem_cons_of_mem _ hc)
      apply Separate.cons hbpos _ (ih hsep.tail hrest)
      intro c hc
      obtain heq | ⟨d, hd, heq⟩ := start_of_mem_putPages hc
      · rw [heq]
        unfold RtPageHead.behind
        lia
      · rw [heq]
        exact hsep.behind_lt hd

theorem pagesOf_putPages :
    (pagesOf (putPages n npages bs)).Perm (List.range' n npages ++ pagesOf bs) := by
  induction bs with
  | nil => simp [putPages, RtPageHead.pages]
  | cons b rest ih =>
    have hcomm : ∀ l : List ℕ, (b.pages ++ (List.range' n npages ++ l)).Perm
        (List.range' n npages ++ (b.pages ++ l)) := by
      intro l
      rw [← append_assoc, ← append_assoc]
      exact perm_append_comm.append_right l
    unfold putPages
    split_ifs with hpred hsucc hlt
    · have hmerged : RtPageHead.pages ⟨b.start, b.page + npages⟩ =
          b.pages ++ List.range' n npages := by
        unfold RtPageHead.pages
        rw [range'_split, hpred]
      cases rest with
      | nil => simpa [hmerged] using hcomm []
      | cons next rest' =>
        simp only
        split_ifs with htouch
        · have hthree : RtPageHead.pages ⟨b.start, b.page + npages + next.page⟩ =
              b.pages ++ List.range' n npages ++ next.pages := by
            rw [← hmerged]
            unfold RtPageHead.pages
            rw [range'_split, htouch]
          simpa [hthree] using hcomm (next.pages ++ pagesOf rest')
        · simpa [hmerged] using hcomm (next.pages ++ pagesOf rest')
    · have hmerged : RtPageHead.pages ⟨n, b.page + npages⟩ = List.range' n npages ++ b.pages := by
        unfold RtPageHead.pages
        rw [Nat.add_comm, range'_split, hsucc]
      simp [hmerged]
    · simp [RtPageHead.pages]
    · simp only [pagesOf_cons]
      exact (ih.append_left _).trans (hcomm _)

theorem Separate.eq_singleton (hsep : Separate bs) (hlen : 0 < len)
    (hpages : (pagesOf bs).Perm (List.range' start len)) : bs = [⟨start, len⟩] := by
  have hmem : ∀ p, (∃ b ∈ bs, b.start ≤ p ∧ p < b.behind) ↔ start ≤ p ∧ p < start + len := by
    intro p
    rw [← mem_pagesOf, hpages.mem_iff, mem_range'_1]
  cases bs with
  | nil =>
    have hfirst := (hmem start).mpr ⟨le_rfl, by lia⟩
    simp at hfirst
  | cons b rest =>
    have hbpos := hsep.head_pos
    cases rest with
    | nil =>
      have hlength : b.page = len := by
        have := hpages.length_eq
        simpa [RtPageHead.pages] using this
      have hfirst := (hmem start).mpr ⟨le_rfl, by lia⟩
      have hown := (hmem b.start).mp ⟨b, by simp, le_rfl, by
        unfold RtPageHead.behind
        lia⟩
      simp only [mem_singleton, exists_eq_left] at hfirst
      have hstart : b.start = start := by lia
      rw [← hstart, ← hlength]
    | cons c rest' =>
      -- the page behind the first run lies in the heap and in no run
      have hbc := hsep.behind_lt (mem_cons_self (a := c))
      have hcpos := hsep.tail.head_pos
      have hb := (hmem b.start).mp ⟨b, by simp, le_rfl, by
        unfold RtPageHead.behind
        lia⟩
      have hc := (hmem c.start).mp ⟨c, by simp, le_rfl, by
        unfold RtPageHead.behind
        lia⟩
      have hgap : start ≤ b.behind ∧ b.behind < start + len := by
        unfold RtPageHead.behind at hbc ⊢
        lia
      obtain ⟨d, hd, hle, hlt⟩ := (hmem b.behind).mpr hgap
      obtain rfl | hd := mem_cons.mp hd
      · exact absurd hlt (lt_irrefl _)
      · have := hsep.behind_lt hd
        lia

/-- The pages are free or allocated, never both. -/
structure Partitioned (start len : ℕ) (bs allocated : List RtPageHead) : Prop where
  separate : Separate bs
  partition : (pagesOf bs ++ pagesOf allocated).Perm (List.range' start len)
  allocated_pos : ∀ b ∈ allocated, 0 < b.page

namespace Partitioned

variable {allocated allocated' : List RtPageHead}

theorem initial (hlen : len ≠ 0) : Partitioned start len [⟨start, len⟩] [] := by
  constructor
  · exact Separate.cons (Nat.pos_of_ne_zero hlen) (by simp) Separate.nil
  · simp [RtPageHead.pages]
  · simp

section

variable (hpart : Partitioned start len bs allocated)
include hpart

theorem perm (hperm : allocated.Perm allocated') : Partitioned start len bs allocated' where
  separate := hpart.separate
  partition := ((hperm.flatMap_right _).symm.append_left _).trans hpart.partition
  allocated_pos b hb := hpart.allocated_pos b (hperm.mem_iff.mpr hb)

theorem apart (hb : b ∈ allocated) : Apart bs b.start b.page := by
  intro c hc
  have hnodup := hpart.partition.nodup_iff.mpr nodup_range'
  have hdisjoint := (nodup_append.mp hnodup).2.2
  apply behind_le_or_le (hpart.separate.pos c hc) (hpart.allocated_pos b hb)
  exact fun p hpc hpb =>
    hdisjoint p (mem_pagesOf.mpr ⟨c, hc, hpc⟩) p (mem_pagesOf.mpr ⟨b, hb, hpb⟩) rfl

theorem eq_of_common_page
    (hb : b ∈ allocated) (hc : c ∈ allocated) (hpb : b.start ≤ p ∧ p < b.behind)
    (hpc : c.start ≤ p ∧ p < c.behind) : b = c := by
  by_contra hne
  have hnodup := hpart.partition.nodup_iff.mpr nodup_range'
  have hpairwise := (nodup_flatMap.mp (nodup_append.mp hnodup).2.1).2
  have hsymm : Std.Symm (Function.onFun List.Disjoint RtPageHead.pages) :=
    ⟨fun _ _ hdisjoint => hdisjoint.symm⟩
  have hdisjoint := hpairwise.forall hb hc hne
  exact hdisjoint (mem_pages.mpr hpb) (mem_pages.mpr hpc)

theorem alloc (hpos : 0 < npages) (hfound : (takePages npages bs).1 = some p) :
    Partitioned start len (takePages npages bs).2 (⟨p, npages⟩ :: allocated) := by
  constructor
  · exact hpart.separate.takePages
  · simp only [pagesOf_cons, RtPageHead.pages]
    apply Perm.trans _ hpart.partition
    rw [← append_assoc]
    apply Perm.append_right
    exact perm_append_comm.trans (pagesOf_takePages hfound).symm
  · intro b hb
    obtain rfl | hb := mem_cons.mp hb
    · exact hpos
    · exact hpart.allocated_pos b hb

end

theorem free (hpart : Partitioned start len bs (b :: allocated)) :
    Partitioned start len (putPages b.start b.page bs) allocated := by
  constructor
  · exact hpart.separate.putPages (hpart.apart mem_cons_self)
      (hpart.allocated_pos b mem_cons_self)
  · apply (pagesOf_putPages.append_right _).trans
    rw [append_assoc]
    apply (perm_append_comm_assoc _ _ _).trans
    exact hpart.partition
  · exact fun c hc => hpart.allocated_pos c (mem_cons_of_mem _ hc)

end Partitioned

structure PageState where
  heap : PageHeap
  allocated : List RtPageHead

inductive PageCall where
  | alloc (npages : ℕ)
  | free (run : RtPageHead)

def hold (page : Option ℕ) (npages : ℕ) (allocated : List RtPageHead) : List RtPageHead :=
  match page with
  | none => allocated
  | some p => ⟨p, npages⟩ :: allocated

/-- One call; `none` is a call which does not return. -/
def PageState.execute (s : PageState) : PageCall → Option PageState
  | .alloc npages => (rtPageAlloc s.heap npages).map fun result =>
    ⟨result.1, hold result.2 npages s.allocated⟩
  | .free run => (rtPageFree s.heap run.start run.page).map fun heap =>
    ⟨heap, s.allocated.erase run⟩

def PageCall.Legal (s : PageState) : PageCall → Prop
  | .alloc _ => True
  | .free run => run ∈ s.allocated

instance (s : PageState) : DecidablePred (PageCall.Legal s)
  | .alloc _ => inferInstanceAs (Decidable True)
  | .free run => inferInstanceAs (Decidable (run ∈ s.allocated))

def pageSystem (start len : ℕ) : TransitionSystem PageState PageCall where
  init s := start ≠ 0 ∧ len ≠ 0 ∧ s.allocated = [] ∧
    ∃ list, rtPageInit ⟨list, 1⟩ start len = some s.heap
  step s call s' := call.Legal s ∧ s.execute call = some s'

theorem rtPageAlloc_cases {s s' : PageHeap} {page : Option ℕ}
    (halloc : rtPageAlloc s npages = some (s', page)) :
    s' = s ∧ page = none ∧ (npages = 0 ∨ (takePages npages s.rtPageList).1 = none) ∨
      ∃ p, page = some p ∧ 0 < npages ∧ (takePages npages s.rtPageList).1 = some p ∧
        s' = { s with rtPageList := (takePages npages s.rtPageList).2 } := by
  unfold rtPageAlloc at halloc
  split_ifs at halloc with hzero
  · obtain ⟨rfl, rfl⟩ := Prod.mk.inj (some.inj halloc)
    exact .inl ⟨rfl, rfl, .inl hzero⟩
  · unfold PageHeap.take at halloc
    split_ifs at halloc with hsem
    · cases halloc
    · obtain ⟨rfl, rfl⟩ := Prod.mk.inj (some.inj halloc)
      simp only [PageHeap.release, BitVec.sub_add_cancel]
      cases hfound : (takePages npages s.rtPageList).1 with
      | none => exact .inl ⟨by rw [takePages_of_none hfound], rfl, .inr rfl⟩
      | some p => exact .inr ⟨p, rfl, Nat.pos_of_ne_zero hzero, rfl, trivial⟩

theorem rtPageFree_eq {s s' : PageHeap} (hfree : rtPageFree s n npages = some s') :
    s' = { s with rtPageList := putPages n npages s.rtPageList } := by
  unfold rtPageFree PageHeap.take at hfree
  split_ifs at hfree with hsem
  · cases hfree
  · obtain rfl := some.inj hfree
    simp only [PageHeap.release, BitVec.sub_add_cancel]

theorem exists_rtPageAlloc {s : PageHeap} (hsem : s.heapSem ≠ 0) (npages : ℕ) :
    ∃ s' page, rtPageAlloc s npages = some (s', page) := by
  unfold rtPageAlloc PageHeap.take
  rw [if_neg hsem]
  by_cases hzero : npages = 0
  · exact ⟨s, none, if_pos hzero⟩
  · exact ⟨_, _, if_neg hzero⟩

theorem exists_rtPageFree {s : PageHeap} (hsem : s.heapSem ≠ 0) (n npages : ℕ) :
    ∃ s', rtPageFree s n npages = some s' := by
  unfold rtPageFree PageHeap.take
  rw [if_neg hsem]
  exact ⟨_, rfl⟩

/-- The page list between calls. -/
structure Canonical (start len : ℕ) (s : PageState) : Prop where
  runs : Partitioned start len s.heap.rtPageList s.allocated
  heapSem : s.heap.heapSem = 1

namespace Canonical

variable {s s' : PageState} {call : PageCall}

theorem of_init (hinit : (pageSystem start len).init s) : Canonical start len s := by
  obtain ⟨-, hlen, hallocated, list, hheap⟩ := hinit
  have hs := rtPageFree_eq hheap
  constructor
  · rw [hs, hallocated]
    exact Partitioned.initial hlen
  · rw [hs]

section

variable (hcanonical : Canonical start len s)
include hcanonical

theorem alloc
    (hexecute : s.execute (.alloc npages) = some s') : Canonical start len s' := by
  obtain ⟨⟨heap, page⟩, halloc, rfl⟩ := map_eq_some_iff.mp hexecute
  obtain ⟨rfl, rfl, -⟩ | ⟨p, rfl, hpos, hfound, rfl⟩ := rtPageAlloc_cases halloc
  · exact hcanonical
  · exact ⟨hcanonical.runs.alloc hpos hfound, hcanonical.heapSem⟩

theorem free (hb : b ∈ s.allocated)
    (hexecute : s.execute (.free b) = some s') : Canonical start len s' := by
  obtain ⟨heap, hfree, rfl⟩ := map_eq_some_iff.mp hexecute
  obtain rfl := rtPageFree_eq hfree
  exact ⟨(hcanonical.runs.perm (perm_cons_erase hb)).free, hcanonical.heapSem⟩

/-- Every call on the page list returns. -/
theorem exists_execute (call : PageCall) :
    ∃ s', s.execute call = some s' := by
  have hsem : s.heap.heapSem ≠ 0 := by
    rw [hcanonical.heapSem]
    decide
  cases call with
  | alloc npages =>
    obtain ⟨heap, page, halloc⟩ := exists_rtPageAlloc hsem npages
    exact ⟨_, map_eq_some_iff.mpr ⟨_, halloc, rfl⟩⟩
  | free run =>
    obtain ⟨heap, hfree⟩ := exists_rtPageFree hsem run.start run.page
    exact ⟨_, map_eq_some_iff.mpr ⟨_, hfree, rfl⟩⟩

end

theorem of_reachable {guard : PageState → PageCall → Prop}
    (hreach : (pageSystem start len).Reachable guard s) : Canonical start len s := by
  apply hreach.invariant
  · exact fun s hinit => of_init hinit
  · intro s call s' hcanonical _ hstep
    cases call with
    | alloc npages => exact hcanonical.alloc hstep.2
    | free run => exact hcanonical.free hstep.1 hstep.2

end Canonical

/-- The free list stays canonical, and once everything is free it is one run again. -/
theorem rtPageList_canonical (start len : ℕ) {s : PageState}
    (hreach : (pageSystem start len).Reachable (fun _ _ => True) s) : Canonical start len s ∧
      (s.allocated = [] → s.heap.rtPageList = [⟨start, len⟩]) ∧
      ∀ call, ∃ s', s.execute call = some s' := by
  have hcanonical := Canonical.of_reachable hreach
  refine ⟨hcanonical, ?_, hcanonical.exists_execute⟩
  intro hnone
  have hpages := hcanonical.runs.partition
  rw [hnone, pagesOf_nil, append_nil] at hpages
  apply hcanonical.runs.separate.eq_singleton _ hpages
  apply hreach.invariant (P := fun _ => 0 < len)
  · exact fun s hinit => Nat.pos_of_ne_zero hinit.2.1
  · exact fun s call s' hlen _ _ => hlen

theorem rtPageList_canonical_of_sample_calls :
    ∃ s, (pageSystem 32 8).Reachable (fun _ _ => True) s ∧ s.heap.rtPageList = [⟨32, 8⟩] ∧
      Canonical 32 8 s ∧ (s.allocated = [] → s.heap.rtPageList = [⟨32, 8⟩]) ∧
      ∀ call, ∃ s', s.execute call = some s' := by
  have hrun : ([PageCall.alloc 1, .alloc 3, .alloc 2, .alloc 9, .free ⟨32, 1⟩, .free ⟨36, 2⟩,
      .free ⟨33, 3⟩].foldlM
        (fun s call => if PageCall.Legal s call then PageState.execute s call else none)
        ⟨⟨[⟨32, 8⟩], 1⟩, []⟩).map (fun s => s.heap.rtPageList) = some [⟨32, 8⟩] := by decide
  obtain ⟨s, hs, hlist⟩ := map_eq_some_iff.mp hrun
  have hreach : (pageSystem 32 8).Reachable (fun _ _ => True) s := by
    apply TransitionSystem.Reachable.foldlM _ (.start _) hs
    · intro s call s' hstep
      split_ifs at hstep with hlegal
      exact ⟨trivial, hlegal, hstep⟩
    · exact ⟨by decide, by decide, rfl, [], rfl⟩
  exact ⟨s, hreach, hlist, rtPageList_canonical 32 8 hreach⟩

end RtThread.Slab
