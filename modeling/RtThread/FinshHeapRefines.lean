import RtThread.FinshHeapMemory
import RtThread.FinshHeapTiles

/-!
# The string heap in memory refines its lists

A removed block keeps a stale `next`, and an insertion at the end of a list
does not overwrite it.  The block at the top of the heap is free, so no block
is ever released behind all free ones, and an allocated block has its `next`
cleared.
-/

namespace RtThread.Finsh.HeapMem

open Function List

section Words

variable {words : Words} {header header' value : ℕ}

theorem nextAt_setNext :
    nextAt (setNext words header value) = update (nextAt words) header value := by
  funext a
  unfold nextAt setNext update
  by_cases ha : a = header
  · rw [ha]
    simp
  · rw [dif_neg ha, dif_neg (by omega)]

theorem nextAt_setNext_self : nextAt (setNext words header value) header = value := by
  rw [nextAt_setNext, update_self]

theorem nextAt_setNext_of_ne (hne : header' ≠ header) :
    nextAt (setNext words header value) header' = nextAt words header' := by
  rw [nextAt_setNext, update_of_ne hne]

theorem nextAt_setLength (hne : header' + 4 ≠ header) :
    nextAt (setLength words header value) header' = nextAt words header' :=
  update_of_ne hne _ _

theorem lengthAt_setNext (hne : header' ≠ header + 4) :
    lengthAt (setNext words header value) header' = lengthAt words header' :=
  update_of_ne hne _ _

theorem lengthAt_setLength_self : lengthAt (setLength words header value) header = value :=
  update_self _ _ _

theorem lengthAt_setLength_of_ne (hne : header' ≠ header) :
    lengthAt (setLength words header value) header' = lengthAt words header' :=
  update_of_ne hne _ _

end Words

section Lists

variable {base p n value : ℕ} {words words' : Words} {header block x prev : FinshBlock}
  {list blocks front back : List FinshBlock}

def headerAt (base : ℕ) (block : FinshBlock) : ℕ := base + block.addr

/-- `list` lies linked in memory from the header at `p`. -/
structure ListAt (base : ℕ) (words : Words) (p : ℕ) (list : List FinshBlock) : Prop where
  linked : LinkedTo (nextAt words) 0 p (list.map (headerAt base))
  lengths : ∀ block ∈ list, lengthAt words (headerAt base block) = block.length

def InHeader (base a : ℕ) (block : FinshBlock) : Prop :=
  a = headerAt base block ∨ a = headerAt base block + 4

theorem ListAt.congr (hlist : ListAt base words p list)
    (hwords : ∀ a, (∃ block ∈ list, InHeader base a block) → words' a = words a) :
    ListAt base words' p list where
  linked := by
    apply hlist.linked.congr
    intro a ha
    obtain ⟨block, hmem, rfl⟩ := mem_map.mp ha
    exact hwords _ ⟨block, hmem, .inr rfl⟩
  lengths := fun block hmem =>
    (hwords _ ⟨block, hmem, .inl rfl⟩).trans (hlist.lengths block hmem)

theorem not_inHeader (hblocks : Separate (x :: blocks)) (hmem : block ∈ blocks) {a : ℕ}
    (hx : InHeader base a x) : ¬InHeader base a block := by
  have hapart := (pairwise_cons.mp hblocks.apart).1 block hmem
  unfold FinshBlock.Apart FinshBlock.behind sizeofBlockHeader at hapart
  unfold InHeader headerAt at *
  omega

theorem headerAt_ne (hblocks : Separate (x :: blocks)) (hmem : block ∈ blocks) :
    headerAt base x ≠ headerAt base block := by
  have hne := hblocks.addr_ne hmem
  unfold headerAt
  omega

theorem ListAt.replaceAfter {list' : List FinshBlock} {length : ℕ}
    (hlist : ListAt base words p (front ++ x :: back)) (hafter : ListAt base words' value list')
    (hnext : nextAt words' (headerAt base x) = value)
    (hlength : lengthAt words' (headerAt base x) = length)
    (hfront : ∀ a, (∃ block ∈ front, InHeader base a block) → words' a = words a) :
    ListAt base words' p (front ++ ⟨x.addr, length⟩ :: list') where
  linked := by
    have hlinked := hlist.linked
    rw [map_append, map_cons] at hlinked ⊢
    apply hlinked.replaceAfter hnext hafter.linked
    intro a ha
    obtain ⟨block, hmem, rfl⟩ := mem_map.mp ha
    exact hfront _ ⟨block, hmem, .inr rfl⟩
  lengths := by
    intro block hmem
    rw [mem_append, mem_cons] at hmem
    obtain hmem | rfl | hmem := hmem
    · exact (hfront _ ⟨block, hmem, .inl rfl⟩).trans
        (hlist.lengths block (mem_append_left _ hmem))
    · exact hlength
    · exact hafter.lengths block hmem

theorem ListAt.behind (hlist : ListAt base words p (front ++ x :: back)) :
    ListAt base words (nextAt words (headerAt base x)) back where
  linked := by
    have hlinked := hlist.linked
    rw [map_append, map_cons] at hlinked
    exact hlinked.behind
  lengths := fun block hmem => hlist.lengths block (mem_append_right _ (.tail _ hmem))

theorem ListAt.tail (hlist : ListAt base words p (x :: back)) :
    ListAt base words (nextAt words (headerAt base x)) back where
  linked := hlist.linked.2.2
  lengths := fun block hmem => hlist.lengths block (.tail _ hmem)

theorem ListAt.headerAt_ne_zero (hlist : ListAt base words p list) (hmem : block ∈ list) :
    headerAt base block ≠ 0 :=
  hlist.linked.ne_null (mem_map_of_mem hmem)

theorem ListAt.lengthAt_middle (hlist : ListAt base words p (front ++ x :: back)) :
    lengthAt words (headerAt base x) = x.length :=
  hlist.lengths x (mem_append_right _ (.head _))

theorem setNext_of_not_inHeader {a : ℕ} (ha : ¬InHeader base a x) :
    setNext words (headerAt base x) value a = words a :=
  update_of_ne (fun heq => ha (.inr heq)) _ _

theorem setLength_of_not_inHeader {a : ℕ} (ha : ¬InHeader base a x) :
    setLength words (headerAt base x) value a = words a :=
  update_of_ne (fun heq => ha (.inl heq)) _ _

theorem ListAt.exists_second (hlist : ListAt base words p (x :: (front ++ block :: back))) :
    ∃ second ∈ front ++ [block], nextAt words (headerAt base x) = headerAt base second := by
  have hnext := hlist.linked.2.2
  cases front with
  | nil => exact ⟨block, .head _, hnext.1⟩
  | cons second front => exact ⟨second, .head _, hnext.1⟩

theorem ListAt.head_mem (hlist : ListAt base words p (front ++ x :: back)) :
    ∃ first ∈ front ++ [x], p = headerAt base first := by
  cases front with
  | nil => exact ⟨x, .head _, hlist.linked.1⟩
  | cons first front => exact ⟨first, .head _, hlist.linked.1⟩

theorem ListAt.ne_head (hlist : ListAt base words p (front ++ prev :: header :: back))
    (hsep : Separate (front ++ prev :: header :: back)) : p ≠ headerAt base header := by
  rw [append_cons] at hsep
  obtain ⟨first, hfirst, hp⟩ := hlist.head_mem
  rw [hp]
  exact (headerAt_ne hsep.middle (mem_append_left back hfirst)).symm

theorem findPrev_spec (hlist : ListAt base words p (front ++ prev :: header :: back))
    (hsep : Separate (front ++ prev :: header :: back)) (hn : front.length < n) :
    findPrev words (headerAt base header) n p = some (headerAt base prev) := by
  induction front generalizing p n with
  | nil =>
    obtain ⟨k, rfl⟩ := Nat.exists_eq_succ_of_ne_zero (Nat.ne_of_gt hn)
    have hp : p = headerAt base prev := hlist.linked.1
    have hnext : nextAt words (headerAt base prev) = headerAt base header := hlist.linked.2.2.1
    rw [findPrev, hp, if_neg (hlist.headerAt_ne_zero (.head _)), if_pos hnext]
  | cons first front ih =>
    obtain ⟨k, rfl⟩ := Nat.exists_eq_succ_of_ne_zero (Nat.ne_of_gt (Nat.zero_lt_of_lt hn))
    have hp : p = headerAt base first := hlist.linked.1
    have htail : ListAt base words (nextAt words (headerAt base first))
        (front ++ prev :: header :: back) :=
      hlist.tail
    obtain ⟨second, hsecond, hnext⟩ := hlist.exists_second
    have hfirst : nextAt words (headerAt base first) ≠ headerAt base header := by
      have hblocks : Separate ((front ++ [prev]) ++ header :: back) := by
        rw [append_assoc]
        exact hsep.tail
      rw [hnext]
      exact (headerAt_ne hblocks.middle (mem_append_left back hsecond)).symm
    rw [findPrev, hp, if_neg (hlist.headerAt_ne_zero (.head _)), if_neg hfirst]
    exact ih htail hsep.tail (Nat.lt_of_succ_lt_succ hn)

/-- The unlinked block is gone from the list, and nothing else is written. -/
theorem finshBlockRemove_spec (hlist : ListAt base words p (front ++ header :: back))
    (hsep : Separate (front ++ header :: back)) (hn : front.length < n) :
    ∃ p' words', finshBlockRemove n p (headerAt base header) words = some (p', words') ∧
      ListAt base words' p' (front ++ back) ∧
      (∀ a, (∀ block ∈ front ++ header :: back, ¬InHeader base a block) → words' a = words a) ∧
      lengthAt words' (headerAt base header) = header.length := by
  have hlength := hlist.lengthAt_middle
  have hbackWords : ∀ {x value}, x ∈ front ++ [header] → ∀ a,
      (∃ block ∈ back, InHeader base a block) →
        setNext words (headerAt base x) value a = words a := by
    intro x value hx a hblock
    obtain ⟨block, hmem, hin⟩ := hblock
    apply setNext_of_not_inHeader
    have hcross := (pairwise_append.mp
      (append_cons front header back ▸ hsep.apart)).2.2 x hx block hmem
    unfold FinshBlock.Apart FinshBlock.behind sizeofBlockHeader at hcross
    unfold InHeader headerAt at *
    lia
  obtain rfl | ⟨front, prev, rfl⟩ := front.eq_nil_or_concat'
  · have hp : p = headerAt base header := hlist.linked.1
    refine ⟨nextAt words (headerAt base header), setNext words (headerAt base header) 0, ?_, ?_, ?_,
      ?_⟩
    · rw [finshBlockRemove, if_pos hp]
    · exact hlist.behind.congr (hbackWords (by simp))
    · intro a ha
      exact setNext_of_not_inHeader (ha header (by simp))
    · rw [lengthAt_setNext (by lia), hlength]
  · rw [append_assoc, singleton_append] at hlist hsep
    have hfirst := hlist.ne_head hsep
    have hprev := findPrev_spec hlist hsep (n := n) (by simp at hn; lia)
    have hprevNe : headerAt base prev ≠ 0 := hlist.headerAt_ne_zero (by simp)
    have hne : headerAt base header ≠ headerAt base prev + 4 := by
      intro heq
      have hblocks : Separate (prev :: (front ++ header :: back)) := hsep.middle
      have hin : InHeader base (headerAt base prev + 4) prev := .inr rfl
      exact not_inHeader hblocks (by simp) hin (.inl heq.symm)
    refine ⟨p, setNext words (headerAt base prev) (nextAt words (headerAt base header)), ?_, ?_, ?_,
      ?_⟩
    · rw [finshBlockRemove, if_neg hfirst, hprev, Option.map_some, if_pos hprevNe]
    · have hbehind : ListAt base words (nextAt words (headerAt base header)) back := by
        have hsplit : front ++ prev :: header :: back = (front ++ [prev]) ++ header :: back := by
          simp
        exact (hsplit ▸ hlist : ListAt base words p ((front ++ [prev]) ++ header :: back)).behind
      have hafter : ListAt base
          (setNext words (headerAt base prev) (nextAt words (headerAt base header)))
          (nextAt words (headerAt base header)) back :=
        hbehind.congr (hbackWords (by simp))
      have hprevLength : lengthAt
          (setNext words (headerAt base prev) (nextAt words (headerAt base header)))
          (headerAt base prev) = prev.length := by
        rw [lengthAt_setNext (by lia), hlist.lengthAt_middle]
      rw [append_assoc, singleton_append]
      apply hlist.replaceAfter hafter nextAt_setNext_self hprevLength
      intro a hblock
      obtain ⟨block, hmem, hin⟩ := hblock
      apply setNext_of_not_inHeader
      intro hprevIn
      exact not_inHeader hsep.middle (mem_append_left _ hmem) hprevIn hin
    · intro a ha
      exact setNext_of_not_inHeader (ha prev (by simp))
    · rw [lengthAt_setNext hne, hlength]

theorem headerAt_lt (hlt : x.addr < header.addr) : headerAt base x < headerAt base header :=
  Nat.add_lt_add_left hlt base

theorem insertPoint_spec (hlist : ListAt base words p (front ++ x :: back))
    (hfront : ∀ block ∈ front ++ [x], block.addr < header.addr)
    (hback : ∀ block ∈ back, header.addr < block.addr) (hn : front.length < n) :
    insertPoint words (headerAt base header) n p = some (headerAt base x) := by
  induction front generalizing p n with
  | nil =>
    obtain ⟨k, rfl⟩ := Nat.exists_eq_succ_of_ne_zero (Nat.ne_of_gt hn)
    have hp : p = headerAt base x := hlist.linked.1
    have hnext := hlist.behind.linked
    rw [insertPoint, hp, if_neg (hlist.headerAt_ne_zero (.head _))]
    cases back with
    | nil =>
      have hnull : nextAt words (headerAt base x) = 0 := hnext
      rw [hnull, if_neg (Nat.not_lt_zero _), if_pos rfl]
    | cons next back =>
      have hafter : nextAt words (headerAt base x) = headerAt base next := hnext.1
      rw [hafter, if_pos (headerAt_lt (hback next (.head _)))]
  | cons first front ih =>
    obtain ⟨k, rfl⟩ := Nat.exists_eq_succ_of_ne_zero (Nat.ne_of_gt (Nat.zero_lt_of_lt hn))
    have hp : p = headerAt base first := hlist.linked.1
    have htail : ListAt base words (nextAt words (headerAt base first)) (front ++ x :: back) :=
      hlist.tail
    obtain ⟨second, hsecond, hnext⟩ := hlist.exists_second
    have hbelow : ¬headerAt base header < nextAt words (headerAt base first) := by
      rw [hnext]
      exact Nat.not_lt.mpr (headerAt_lt (hfront second (.tail _ hsecond))).le
    have hsome : nextAt words (headerAt base first) ≠ 0 := by
      rw [hnext]
      apply hlist.headerAt_ne_zero
      simp only [mem_append, mem_cons] at hsecond ⊢
      tauto
    rw [insertPoint, hp, if_neg (hlist.headerAt_ne_zero (.head _)), if_neg hbelow, if_neg hsome]
    exact ih htail (fun block hmem => hfront block (.tail _ hmem)) (Nat.lt_of_succ_lt_succ hn)

theorem ListAt.cons (hlist : ListAt base words p list) (hbase : 0 < base)
    (hnext : nextAt words (headerAt base header) = p)
    (hlength : lengthAt words (headerAt base header) = header.length) :
    ListAt base words (headerAt base header) (header :: list) where
  linked := by
    refine ⟨rfl, Nat.ne_of_gt (Nat.add_pos_left hbase _), ?_⟩
    rw [hnext]
    exact hlist.linked
  lengths := by
    intro block hmem
    obtain rfl | hmem := mem_cons.mp hmem
    · exact hlength
    · exact hlist.lengths block hmem

/-- The block is linked where its address belongs. -/
theorem finshBlockInsert_spec (hbase : 0 < base) (hlist : ListAt base words p (front ++ back))
    (hsep : Separate (header :: (front ++ back)))
    (hlength : lengthAt words (headerAt base header) = header.length)
    (hfront : ∀ block ∈ front, block.addr < header.addr)
    (hback : ∀ block ∈ back, header.addr < block.addr)
    (hend : back ≠ [] ∨ nextAt words (headerAt base header) = 0) (hn : front.length < n) :
    ∃ p' words', finshBlockInsert n p (headerAt base header) words = some (p', words') ∧
      ListAt base words' p' (front ++ header :: back) ∧
      ∀ a, (∀ block ∈ header :: (front ++ back), ¬InHeader base a block) → words' a = words a := by
  -- The header with the list behind it, after its `next` is written or was null before.
  have hcons : ∀ {q}, ListAt base words q back → ∃ words',
      (if q ≠ 0 then setNext words (headerAt base header) q else words) = words' ∧
        ListAt base words' (headerAt base header) (header :: back) ∧
        ∀ a, ¬InHeader base a header → words' a = words a := by
    intro q hq
    have hnull : q = 0 ↔ back = [] := by
      rw [hq.linked.eq_nil_iff, map_eq_nil_iff]
    by_cases hzero : q = 0
    · have hnext : nextAt words (headerAt base header) = 0 :=
        hend.resolve_left (not_not.mpr (hnull.mp hzero))
      refine ⟨words, if_neg (not_not.mpr hzero), ?_, fun _ _ => rfl⟩
      exact hq.cons hbase (hnext.trans hzero.symm) hlength
    · refine ⟨_, if_pos hzero, ?_, fun a ha => setNext_of_not_inHeader ha⟩
      have hkept : ListAt base (setNext words (headerAt base header) q) q back := by
        apply hq.congr
        intro a hblock
        obtain ⟨block, hmem, hin⟩ := hblock
        apply setNext_of_not_inHeader
        intro hheader
        exact not_inHeader hsep (mem_append_right _ hmem) hheader hin
      apply hkept.cons hbase nextAt_setNext_self
      rw [lengthAt_setNext (by omega), hlength]
  obtain rfl | ⟨front, prev, rfl⟩ := front.eq_nil_or_concat'
  · obtain ⟨words', hwords, hresult, hframe⟩ := hcons hlist
    refine ⟨headerAt base header, words', ?_, hresult, fun a ha => hframe a (ha header (.head _))⟩
    by_cases hzero : p = 0
    · rw [if_neg (not_not.mpr hzero)] at hwords
      rw [finshBlockInsert, if_pos hzero, hwords]
    · have hlow : headerAt base header < p := by
        cases back with
        | nil => exact absurd hlist.linked hzero
        | cons next back =>
          have hp : p = headerAt base next := hlist.linked.1
          rw [hp]
          exact headerAt_lt (hback next (.head _))
      rw [if_pos hzero] at hwords
      rw [finshBlockInsert, if_neg hzero, if_pos hlow, hwords]
  · rw [append_assoc, singleton_append] at hlist
    obtain ⟨words', hwords, hresult, hframe⟩ := hcons hlist.behind
    have hpoint := insertPoint_spec hlist hfront hback (n := n) (by simp at hn; omega)
    have hp : p ≠ 0 ∧ ¬headerAt base header < p := by
      obtain ⟨first, hfirst, hpFirst⟩ := hlist.head_mem
      rw [hpFirst]
      refine ⟨hlist.headerAt_ne_zero ?_, Nat.not_lt.mpr (headerAt_lt (hfront first hfirst)).le⟩
      simp only [mem_append, mem_cons] at hfirst ⊢
      tauto
    have hblocks : Separate (prev :: (front ++ header :: back)) := by
      have hmoved : Separate ((front ++ [prev]) ++ header :: back) :=
        hsep.perm perm_middle.symm
      rw [append_assoc] at hmoved
      exact hmoved.middle
    refine ⟨p, setNext words' (headerAt base prev) (headerAt base header), ?_, ?_, ?_⟩
    · rw [finshBlockInsert, if_neg hp.1, if_neg hp.2, hpoint, Option.map_some, hwords]
    · have hkept : ListAt base (setNext words' (headerAt base prev) (headerAt base header))
          (headerAt base header) (header :: back) := by
        apply hresult.congr
        intro a hblock
        obtain ⟨block, hmem, hin⟩ := hblock
        apply setNext_of_not_inHeader
        intro hprev
        exact not_inHeader hblocks (mem_append_right _ hmem) hprev hin
      have hprevLength : lengthAt
          (setNext words' (headerAt base prev) (headerAt base header)) (headerAt base prev) =
          prev.length := by
        rw [lengthAt_setNext (by omega)]
        have hprevIn : ¬InHeader base (headerAt base prev) header := by
          exact not_inHeader hblocks (mem_append_right _ (.head _)) (.inl rfl)
        exact (hframe _ hprevIn).trans hlist.lengthAt_middle
      rw [append_assoc, singleton_append]
      apply hlist.replaceAfter hkept nextAt_setNext_self hprevLength
      intro a hblock
      obtain ⟨block, hmem, hin⟩ := hblock
      have hprevIn : ¬InHeader base a prev := fun hprev =>
        not_inHeader hblocks (mem_append_left _ hmem) hprev hin
      have hheaderIn : ¬InHeader base a header := fun hheader =>
        not_inHeader hsep (by simp [hmem]) hheader hin
      rw [setNext_of_not_inHeader hprevIn, hframe a hheaderIn]
    · intro a ha
      rw [setNext_of_not_inHeader (ha prev (by simp)), hframe a (ha header (.head _))]

theorem touches_iff (hlength : lengthAt words (headerAt base x) = x.length) :
    touches words (headerAt base x) (headerAt base block) ↔ x.behind = block.addr := by
  unfold touches FinshBlock.behind
  rw [hlength]
  unfold headerAt
  omega

/-- The header takes in the blocks behind it up to the one at `last`. -/
def absorbed (words : Words) (header length last : ℕ) : Words :=
  setNext (setLength words header length) header (nextAt (setLength words header length) last)

theorem ListAt.absorb (gone : List FinshBlock) (length : ℕ)
    (hlist : ListAt base words p (front ++ x :: (gone ++ block :: back)))
    (hsep : Separate (front ++ x :: (gone ++ block :: back))) :
    ListAt base (absorbed words (headerAt base x) length (headerAt base block)) p
        (front ++ ⟨x.addr, length⟩ :: back) ∧
      ∀ a, ¬InHeader base a x →
        absorbed words (headerAt base x) length (headerAt base block) a = words a := by
  have hframe : ∀ a, ¬InHeader base a x →
      absorbed words (headerAt base x) length (headerAt base block) a = words a := by
    intro a ha
    rw [absorbed, setNext_of_not_inHeader ha, setLength_of_not_inHeader ha]
  have hother : ∀ y ∈ front ++ (gone ++ block :: back), ∀ a, InHeader base a y →
      ¬InHeader base a x := fun y hmem a hin hx => not_inHeader hsep.middle hmem hx hin
  refine ⟨?_, hframe⟩
  have hnext : nextAt (setLength words (headerAt base x) length) (headerAt base block) =
      nextAt words (headerAt base block) :=
    setLength_of_not_inHeader (hother block (by simp) _ (.inr rfl))
  have hback : ListAt base words (nextAt words (headerAt base block)) back := by
    have hsplit : front ++ x :: (gone ++ block :: back) = (front ++ x :: gone) ++ block :: back := by
      simp
    exact (hsplit ▸ hlist).behind
  have hkept : ListAt base (absorbed words (headerAt base x) length (headerAt base block))
      (nextAt words (headerAt base block)) back := by
    apply hback.congr
    intro a hblock
    obtain ⟨y, hmem, hin⟩ := hblock
    exact hframe a (hother y (by simp [hmem]) a hin)
  apply hlist.replaceAfter hkept
  · rw [absorbed, nextAt_setNext_self, hnext]
  · rw [absorbed, lengthAt_setNext (by omega), lengthAt_setLength_self]
  · intro a hblock
    obtain ⟨y, hmem, hin⟩ := hblock
    exact hframe a (hother y (by simp [hmem]) a hin)

theorem mergeNext_apart {back : List FinshBlock}
    (hapart : ¬∃ next ∈ back.head?, header.behind = next.addr) :
    mergeNext header back = header :: back := by
  cases back with
  | nil => rfl
  | cons next rest => exact if_neg fun htouch => hapart ⟨next, rfl, htouch⟩

def TouchesNext (words : Words) (header : ℕ) : Prop :=
  nextAt words header ≠ 0 ∧ touches words header (nextAt words header)

instance : Decidable (TouchesNext words n) := inferInstanceAs (Decidable (_ ∧ _))

theorem touchesNext_iff (hlist : ListAt base words p (front ++ x :: back)) :
    TouchesNext words (headerAt base x) ↔ ∃ next ∈ back.head?, x.behind = next.addr := by
  have hbehind := hlist.behind
  unfold TouchesNext
  cases back with
  | nil =>
    have hnull : nextAt words (headerAt base x) = 0 := hbehind.linked
    simp [hnull]
  | cons next rest =>
    have hsome : headerAt base next ≠ 0 := hlist.headerAt_ne_zero (by simp)
    rw [hbehind.linked.1, touches_iff hlist.lengthAt_middle]
    simp [hsome]

/-- The block takes in the one behind it, if that one touches it. -/
theorem mergeBehind_spec (hlist : ListAt base words p (front ++ header :: back))
    (hsep : Separate (front ++ header :: back)) :
    ∃ words', (if TouchesNext words (headerAt base header) then
          absorbed words (headerAt base header) (lengthAt words (headerAt base header) +
              (lengthAt words (nextAt words (headerAt base header)) + sizeofBlockHeader))
            (nextAt words (headerAt base header))
        else words) = words' ∧
      ListAt base words' p (front ++ mergeNext header back) ∧
      ∀ a, (∀ block ∈ front ++ header :: back, ¬InHeader base a block) → words' a = words a := by
  have hiff := touchesNext_iff hlist
  by_cases hnear : ∃ next ∈ back.head?, header.behind = next.addr
  · rw [if_pos (hiff.mpr hnear)]
    obtain ⟨next, hhead, htouch⟩ := hnear
    obtain ⟨rest, rfl⟩ := head?_eq_some_iff.mp hhead
    have hbehind := hlist.behind
    obtain ⟨hresult, hframe⟩ :=
      hlist.absorb [] (header.length + (next.length + sizeofBlockHeader)) hsep
    rw [hbehind.linked.1, hlist.lengthAt_middle, hbehind.lengths next (.head _), mergeNext,
      if_pos htouch, Nat.add_assoc]
    exact ⟨_, rfl, hresult, fun a ha => hframe a (ha header (by simp))⟩
  · rw [if_neg (mt hiff.mp hnear), mergeNext_apart hnear]
    exact ⟨words, rfl, hlist, fun _ _ => rfl⟩

/-- The block before takes it in, and with it the one behind if that one touches too. -/
theorem mergeBefore_spec (hlist : ListAt base words p (front ++ prev :: header :: back))
    (hsep : Separate (front ++ prev :: header :: back)) (htouch : prev.behind = header.addr) :
    ∃ words', (if TouchesNext words (headerAt base header) then
          absorbed words (headerAt base prev) (lengthAt words (headerAt base prev) +
              (lengthAt words (headerAt base header) +
                lengthAt words (nextAt words (headerAt base header)) + 2 * sizeofBlockHeader))
            (nextAt words (headerAt base header))
        else
          absorbed words (headerAt base prev) (lengthAt words (headerAt base prev) +
            (lengthAt words (headerAt base header) + sizeofBlockHeader)) (headerAt base header)) =
        words' ∧ ListAt base words' p (front ++ mergeNext (prev.join header) back) ∧
      ∀ a, (∀ block ∈ front ++ prev :: header :: back, ¬InHeader base a block) →
        words' a = words a := by
  have hheader : ListAt base words p ((front ++ [prev]) ++ header :: back) := by
    rwa [← append_cons]
  have hiff := touchesNext_iff hheader
  have hjoin := FinshBlock.behind_join htouch
  rw [hlist.lengthAt_middle, hheader.lengthAt_middle]
  by_cases hnear : ∃ next ∈ back.head?, header.behind = next.addr
  · rw [if_pos (hiff.mpr hnear)]
    obtain ⟨next, hhead, hbehind⟩ := hnear
    obtain ⟨rest, rfl⟩ := head?_eq_some_iff.mp hhead
    have hnext := hheader.behind
    have hlength : prev.length + (header.length + next.length + 2 * sizeofBlockHeader) =
        (prev.join header).length + next.length + sizeofBlockHeader := by
      unfold FinshBlock.join
      dsimp only
      omega
    obtain ⟨hresult, hframe⟩ := ListAt.absorb [header]
      (prev.length + (header.length + next.length + 2 * sizeofBlockHeader)) hlist hsep
    rw [hnext.linked.1, hnext.lengths next (.head _), mergeNext, hjoin, if_pos hbehind]
    rw [hlength] at hresult hframe ⊢
    exact ⟨_, rfl, hresult, fun a ha => hframe a (ha prev (by simp))⟩
  · have hapart : ¬∃ next ∈ back.head?, (prev.join header).behind = next.addr := hjoin ▸ hnear
    obtain ⟨hresult, hframe⟩ := ListAt.absorb []
      (prev.length + (header.length + sizeofBlockHeader)) hlist hsep
    rw [if_neg (mt hiff.mp hnear), mergeNext_apart hapart]
    refine ⟨_, rfl, ?_, fun a ha => hframe a (ha prev (by simp))⟩
    rwa [← Nat.add_assoc] at hresult ⊢

/-- Merging the headers in memory merges the blocks of the list. -/
theorem finshBlockMerge_spec (hlist : ListAt base words p (front ++ header :: back))
    (hsep : Separate (front ++ header :: back)) (hn : front.length < n) :
    ∃ words', finshBlockMerge n p (headerAt base header) words = some words' ∧
      ListAt base words' p (Finsh.finshBlockMerge header.addr (front ++ header :: back)) ∧
      ∀ a, (∀ block ∈ front ++ header :: back, ¬InHeader base a block) → words' a = words a := by
  obtain ⟨merged, hmerged, hmergedList, hmergedFrame⟩ := mergeBehind_spec hlist hsep
  obtain rfl | ⟨front, prev, rfl⟩ := front.eq_nil_or_concat'
  · have hp : p = headerAt base header := hlist.linked.1
    refine ⟨merged, ?_, ?_, hmergedFrame⟩
    · rw [finshBlockMerge, if_pos hp, Option.map_some, if_neg (fun h => h.1 rfl)]
      exact congrArg some hmerged
    · rw [nil_append, finshBlockMerge_head]
      exact hmergedList
  · have hbelow : ∀ block ∈ front, block.addr ≠ header.addr := fun block hmem =>
      (hsep.middle.addr_ne (by simp [hmem])).symm
    have hprevAddr : prev.addr ≠ header.addr := (hsep.middle.addr_ne (by simp)).symm
    rw [← append_cons] at hlist hsep hmergedFrame ⊢
    rw [← append_cons] at hmergedList
    have hprev := findPrev_spec hlist hsep (n := n) (by simp at hn; omega)
    have hsome : headerAt base prev ≠ 0 := hlist.headerAt_ne_zero (by simp)
    have htouches : touches words (headerAt base prev) (headerAt base header) ↔
        prev.behind = header.addr :=
      touches_iff hlist.lengthAt_middle
    rw [finshBlockMerge, if_neg (hlist.ne_head hsep), hprev, Option.map_some,
      finshBlockMerge_behind hbelow hprevAddr]
    by_cases htouch : prev.behind = header.addr
    · obtain ⟨words', hwords, hresult, hframe⟩ := mergeBefore_spec hlist hsep htouch
      rw [if_pos ⟨hsome, htouches.mpr htouch⟩, if_pos htouch]
      exact ⟨words', congrArg some hwords, hresult, hframe⟩
    · rw [if_neg fun h => htouch (htouches.mp h.2), if_neg htouch]
      exact ⟨merged, congrArg some hmerged, hmergedList, hmergedFrame⟩

end Lists

end RtThread.Finsh.HeapMem
