import RtThread.ModuleHeapTiles

/-!
# The module heap keeps its pages

Free blocks and live blocks tile the pages of the page table, and the data of a live block
stays until it is freed, as long as no page is given back and pages are there when they are
asked for.
-/

namespace RtThread.ModuleHeap

open Function List Option Word ModuleHeap.Module

def pageTable (s : Module) : List PageInfo := (List.range s.pageCnt).map s.pageArray

/-- The free list is sorted, free and live blocks cover each unit of the pages obtained and not
returned once, and no other; the page table lists these pages once; and nobody holds
`mod_sem`. -/
structure HeapTiled (s : Module) : Prop where
  sorted : Sorted s.memList
  tiles : ∀ u, cover (s.memList ++ s.live) u = if s.owned (u / pageUnits) then 1 else 0
  pageCnt : s.pageCnt ≤ PAGE_COUNT_MAX
  table : ∀ p, ((pageTable s).countP fun r => inRun r.pagePtr r.npage p) =
    if s.owned p then 1 else 0
  modSem : s.modSem = 1

def SameData (s s' : Module) (b : Block) : Prop :=
  b ∈ s'.live ∧ ∀ u, b.addr < u → u < b.addr + b.size → s'.mem u = s.mem u

def HasRoom (s : Module) (p size : ℕ) (b : Block) : Prop :=
  b ∈ s.live ∧ p = b.addr + 1 ∧ size ≤ (b.size - 1) * 8

/-- A call leaves the data of the blocks it is not about, the one which `rt_module_realloc` is
about keeps its data up to the smaller size, and the semaphore has its value again. -/
def KeepsData (s : Module) (call : Call) (reply : Option ℕ) (s' : Module) : Prop :=
  s'.modSem = s.modSem ∧ match call with
    | .malloc size _ =>
      (∀ b ∈ s.live, SameData s s' b) ∧ ∃ p b, reply = some p ∧ HasRoom s' p size b
    | .realloc none size _ =>
      (∀ b ∈ s.live, SameData s s' b) ∧ ∃ p b, reply = some p ∧ HasRoom s' p size b
    | .realloc (some addr) size _ =>
      (∀ b ∈ s.live, b.addr + 1 ≠ addr → SameData s s' b) ∧ (size = 0 → reply = none) ∧
        (size ≠ 0 → ∃ p b b', reply = some p ∧ HasRoom s' p size b' ∧
          b ∈ s.live ∧ b.addr + 1 = addr ∧
          ∀ i, i + 1 < b.size → i + 1 < b'.size → s'.mem (p + i) = s.mem (addr + i))
    | .free addr => ∀ b ∈ s.live, b.addr + 1 ≠ addr → SameData s s' b
    | .store addr _ => ∀ b ∈ s.live, ¬b.Has addr → SameData s s' b

def MallocServed (s : Module) (size : ℕ) (pages : List (Option ℕ)) : Prop :=
  size + 7 < 4294967296 ∧ ((∀ b ∈ s.memList, b.size < nunitsOf size) →
      size + 4103 < 4294967296 ∧ s.pageCnt < PAGE_COUNT_MAX ∧ ∃ up rest, pages = some up :: rest)

def listAfterMalloc (s : Module) (size : ℕ) (pages : List (Option ℕ)) : List Block :=
  match mallocScan (nunitsOf size) s.memList with
  | some f => f.list
  | none =>
    match pages with
    | some up :: _ =>
      match mallocScan (nunitsOf size) (insertPages ⟨up, npageOf size * pageUnits⟩ s.memList) with
      | some f => f.list
      | none => []
    | _ => []

/-- A block is cut and its end is freed; or it grows, if the second free block is behind it, or is
moved and freed. -/
def ReallocServed (s : Module) (b : Block) (size : ℕ) (pages : List (Option ℕ)) : Prop :=
  size + 7 < 4294967296 ∧ (nunitsOf size < b.size →
      KeepsPages s.memList ⟨b.addr + nunitsOf size, b.size - nunitsOf size⟩) ∧
    (b.size < nunitsOf size → s.memList ≠ [] ∧
      ((∀ p ∈ s.memList[1]?, ¬(nunitsOf size - b.size ≤ p.size ∧ p.addr = b.addr + b.size)) →
        MallocServed s size pages ∧ KeepsPages (listAfterMalloc s size pages) b))

def Served (s : Module) : Call → Prop
  | .malloc size pages => MallocServed s size pages
  | .realloc none size pages => MallocServed s size pages
  | .realloc (some addr) size pages => ∀ b ∈ s.live, b.addr + 1 = addr →
      if size = 0 then KeepsPages s.memList b else ReallocServed s b size pages
  | .free addr => ∀ b ∈ s.live, b.addr + 1 = addr → KeepsPages s.memList b
  | .store _ _ => True

/-! ## The invariant -/

variable {s s' : Module} {b c n : Block} {size : ℕ} {pages : List (Option ℕ)} {call : Call}

/-- The tiling, with no empty block. -/
structure HeapInv (s : Module) : Prop extends HeapTiled s where
  positive : ∀ b ∈ s.memList ++ s.live, 0 < b.size

def PagesLive (s : Module) : Prop :=
  ∀ r ∈ pageTable s, r.pagePtr % pageUnits = 0 ∧ ∃ b ∈ s.live, b.addr = r.pagePtr

theorem PagesLive.keep (hpages : PagesLive s) (htable : pageTable s' = pageTable s)
    (hlive : ∀ b ∈ s.live, b.addr % pageUnits = 0 → ∃ c ∈ s'.live, c.addr = b.addr) :
    PagesLive s' := by
  intro r hr
  rw [htable] at hr
  obtain ⟨haligned, b, hb, hbr⟩ := hpages r hr
  obtain ⟨c, hc, hcb⟩ := hlive b hb (hbr ▸ haligned)
  exact ⟨haligned, c, hc, hcb.trans hbr⟩

theorem HeapInv.relist (hinv : HeapInv s) {memList live : List Block} {mem : ℕ → Option UInt64}
    (hsorted : Sorted memList) (hpos : ∀ b ∈ memList ++ live, 0 < b.size)
    (hcover : ∀ u, cover (memList ++ live) u = cover (s.memList ++ s.live) u) :
    HeapInv { s with memList := memList, live := live, mem := mem } :=
  { hinv with
    sorted := hsorted
    tiles u := (hcover u).trans (hinv.tiles u)
    positive := hpos }

theorem HeapInv.cover_le_one (hinv : HeapInv s) (u : ℕ) : cover (s.memList ++ s.live) u ≤ 1 := by
  rw [hinv.tiles]
  split_ifs <;> decide

theorem HeapInv.pos_of_live (hinv : HeapInv s) (hb : b ∈ s.live) : 0 < b.size :=
  hinv.positive b (mem_append_right _ hb)

theorem HeapInv.pos_of_free (hinv : HeapInv s) (hb : b ∈ s.memList) : 0 < b.size :=
  hinv.positive b (mem_append_left _ hb)

theorem perm_live (hb : b ∈ s.live) :
    (s.memList ++ s.live).Perm (b :: (s.memList ++ s.live.erase b)) :=
  ((perm_cons_erase hb).append_left _).trans perm_middle

section

variable (hinv : HeapInv s)
include hinv

theorem HeapInv.apart (hb : b ∈ s.live) (hc : c ∈ s.memList ++ s.live.erase b) :
    c.addr + c.size ≤ b.addr ∨ b.addr + b.size ≤ c.addr := by
  refine apart_of_cover b (s.memList ++ s.live.erase b) (fun u => ?_)
    (hinv.pos_of_live hb) hc (hinv.positive c ?_)
  · rw [← cover_perm (perm_live hb)]
    exact hinv.cover_le_one u
  · exact (perm_live hb).mem_iff.mpr (mem_cons_of_mem _ hc)

theorem HeapInv.apart_live (hb : b ∈ s.live) (hc : c ∈ s.live)
    (hne : c ≠ b) : c.addr + c.size ≤ b.addr ∨ b.addr + b.size ≤ c.addr :=
  hinv.apart hb (mem_append_right _ ((mem_erase_of_ne hne).mpr hc))

theorem HeapInv.apart_free (hb : b ∈ s.live) (hc : c ∈ s.memList) :
    c.addr + c.size ≤ b.addr ∨ b.addr + b.size ≤ c.addr :=
  hinv.apart hb (mem_append_left _ hc)

theorem HeapInv.eq_of_addr (hb : b ∈ s.live) (hc : c ∈ s.live)
    (haddr : c.addr = b.addr) : c = b := by
  by_contra hne
  have hapart := hinv.apart_live hb hc hne
  have hbpos := hinv.pos_of_live hb
  have hcpos := hinv.pos_of_live hc
  omega

theorem HeapInv.header_eq (hb : b ∈ s.live) :
    s.header (b.addr + 1) = some b := by
  unfold header
  cases hfind : s.live.find? fun c => c.addr + 1 = b.addr + 1 with
  | none => exact absurd (find?_eq_none.mp hfind b hb) (by simp)
  | some c =>
    have haddr : c.addr + 1 = b.addr + 1 := by simpa using find?_some hfind
    rw [hinv.eq_of_addr hb (mem_of_find?_eq_some hfind) (by omega)]

end

theorem HeapInv.sameData (hinv : HeapInv s') (hb : b ∈ s'.live)
    (hmem : ∀ u, s'.mem u ≠ s.mem u → ∃ c ∈ s'.memList ++ s'.live, c.addr = u) :
    SameData s s' b := by
  refine ⟨hb, fun u hlow hhigh => ?_⟩
  by_contra hne
  obtain ⟨c, hc, rfl⟩ := hmem u hne
  rcases mem_cons.mp ((perm_live hb).mem_iff.mp hc) with rfl | hc
  · exact Nat.lt_irrefl _ hlow
  · have hapart := hinv.apart hb hc
    omega

/-! ## `rt_module_malloc` -/

theorem Module.take_of_modSem (hsem : s.modSem = 1) : s.take = some { s with modSem := 0 } := by
  unfold take
  rw [hsem]
  rfl

theorem Module.mark_eq (s : Module) (header : Option ℕ) :
    s.mark header = { s with mem := (s.mark header).mem } := by
  cases header <;> rfl

theorem Module.mem_mark_ne {header : Option ℕ} {u : ℕ} (hne : (s.mark header).mem u ≠ s.mem u) :
    u ∈ header := by
  cases header with
  | none => exact absurd rfl hne
  | some addr =>
    by_contra hu
    exact hne (update_of_ne (fun h => hu (by simp [h])) _ _)

/-- `b` is a new block of `nunits` units. -/
structure Malloced (s : Module) (nunits : ℕ) (b : Block) (s' : Module) : Prop extends
    HeapInv s' where
  size : b.size = nunits
  live : s'.live = b :: s.live
  mem : ∀ u, s'.mem u ≠ s.mem u → ∃ c ∈ s'.memList ++ s'.live, c.addr = u

theorem nunitsOf_pos (size : ℕ) : 0 < nunitsOf size := Nat.succ_pos _

theorem Module.handOut_eq (s : Module) (f : Found) :
    s.handOut f = { s with
      memList := f.list
      live := f.block :: s.live
      mem := (s.handOut f).mem } := Module.mark_eq _ f.split

theorem HeapInv.handOut {f : Found} (hinv : HeapInv s)
    (hscan : mallocScan (nunitsOf size) s.memList = some f) :
    Malloced s (nunitsOf size) f.block (s.handOut f) := by
  have hspec := mallocScan_spec hinv.sorted (fun b hb => hinv.pos_of_free hb) hscan
  have hhanded : HeapInv (s.handOut f) := by
    rw [handOut_eq]
    refine hinv.relist hspec.sorted (fun b hb => ?_) fun u => ?_
    · rcases mem_append.mp hb with hb | hb
      · exact hspec.positive b hb
      · rcases mem_cons.mp hb with rfl | hb
        · rw [hspec.size]
          exact nunitsOf_pos size
        · exact hinv.pos_of_live hb
    · have hcover := hspec.cover u
      rw [cover_cons] at hcover
      rw [cover_append, cover_cons, cover_append, ← hcover]
      ring
  refine { hhanded with size := hspec.size, live := ?_, mem := fun u hne => ?_ }
  · rw [handOut_eq]
  · obtain ⟨c, hc, rfl⟩ := hspec.split u (mem_mark_ne hne)
    rw [handOut_eq]
    exact ⟨c, mem_append_left _ hc, rfl⟩

theorem Module.malloc_of_scan {f : Found} (hsem : s.modSem = 1)
    (hscan : mallocScan (nunitsOf size) s.memList = some f) (pages : List (Option ℕ)) :
    s.malloc size pages = some (some (f.block.addr + 1), s.handOut f) := by
  have hrelease : ({ s with modSem := 0 }.handOut f).release = s.handOut f := by
    obtain ⟨block, list, split⟩ := f
    cases split <;> simp [handOut, mark, release, ← hsem]
  unfold malloc
  rw [take_of_modSem hsem, bind_eq_bind, bind_some]
  rw [hscan]
  exact congrArg (fun s' => some (some (f.block.addr + 1), s')) hrelease

def withPages (s : Module) (npage up : ℕ) : Module :=
  { s with
    memList := insertPages ⟨up, npage * pageUnits⟩ s.memList
    pageArray := update s.pageArray s.pageCnt ⟨up, npage⟩
    pageCnt := s.pageCnt + 1
    owned := fun p => s.owned p || inRun up npage p }.mark (some up)

theorem Module.malloc_of_pages {up : ℕ} {rest : List (Option ℕ)} (hsem : s.modSem = 1)
    (hscan : mallocScan (nunitsOf size) s.memList = none) (hcnt : s.pageCnt < PAGE_COUNT_MAX) :
    s.malloc size (some up :: rest) = (withPages s (npageOf size) up).malloc size rest := by
  rw [malloc, take_of_modSem hsem, bind_eq_bind, bind_some]
  dsimp only
  rw [hscan]
  rw [mallocPage]
  rw [if_pos (show s.pageCnt + 1 ≤ PAGE_COUNT_MAX from hcnt), bind_some]
  simp [withPages, mark, release, ← hsem]

theorem pageUnits_eq : pageUnits = 512 := rfl

theorem has_iff_inRun {up npage u : ℕ} (haligned : up % pageUnits = 0) :
    Block.Has ⟨up, npage * pageUnits⟩ u ↔ inRun up npage (u / pageUnits) = true := by
  unfold inRun Block.Has
  rw [decide_eq_true_iff, pageUnits_eq] at *
  lia

theorem pageTable_withPages (s : Module) (npage up : ℕ) :
    pageTable (withPages s npage up) = pageTable s ++ [⟨up, npage⟩] := by
  change (List.range (s.pageCnt + 1)).map (update s.pageArray s.pageCnt ⟨up, npage⟩) = _
  rw [range_succ, map_append, map_singleton, update_self]
  refine congrArg (· ++ [_]) (map_congr_left fun i hi => ?_)
  exact update_of_ne (mem_range.mp hi).ne _ _

theorem HeapInv.withPages {npage up : ℕ} (hinv : HeapInv s) (hnpage : 0 < npage)
    (haligned : up % pageUnits = 0) (hfresh : ∀ i < npage, s.owned (up / pageUnits + i) = false)
    (hcnt : s.pageCnt < PAGE_COUNT_MAX)
    (htouch : ∀ b ∈ s.memList, b.addr ≠ up + npage * pageUnits) :
    HeapInv (withPages s npage up) := by
  have hnew : ∀ p, inRun up npage p = true → s.owned p = false := by
    intro p hp
    obtain ⟨hlow, hhigh⟩ := of_decide_eq_true hp
    have hfree := hfresh (p - up / pageUnits) (by omega)
    rwa [Nat.add_sub_cancel' hlow] at hfree
  have hup : 0 < npage * pageUnits := Nat.mul_pos hnpage (by decide)
  have hapart : ∀ b ∈ s.memList, b.addr + b.size ≤ up ∨ up + npage * pageUnits ≤ b.addr := by
    intro b hb
    refine apart_of_cover ⟨up, npage * pageUnits⟩ (s.memList ++ s.live)
      (fun u => ?_) hup (mem_append_left _ hb) (hinv.pos_of_free hb)
    rw [cover_cons, cover_singleton, hinv.tiles]
    by_cases hu : Block.Has ⟨up, npage * pageUnits⟩ u
    · rw [if_pos hu, hnew _ ((has_iff_inRun haligned).mp hu)]
      decide
    · rw [if_neg hu]
      split_ifs <;> decide
  have hperm := insertPages_perm ⟨up, npage * pageUnits⟩ s.memList
  refine ⟨⟨?_, fun u => ?_, hcnt, fun p => ?_, hinv.modSem⟩, fun b hb => ?_⟩
  · exact sorted_insertPages hinv.sorted hup (fun b hb => hinv.pos_of_free hb) hapart htouch
  · change cover (insertPages _ s.memList ++ s.live) u =
      if (s.owned (u / pageUnits) || inRun up npage (u / pageUnits)) = true then 1 else 0
    rw [cover_append, cover_perm hperm, cover_cons, Nat.add_assoc, ← cover_append, hinv.tiles,
      cover_singleton]
    by_cases hu : Block.Has ⟨up, npage * pageUnits⟩ u
    · have hrun := (has_iff_inRun haligned).mp hu
      rw [if_pos hu, hrun, hnew _ hrun]
      rfl
    · have hrun := mt (has_iff_inRun haligned).mpr hu
      rw [if_neg hu, Bool.eq_false_iff.mpr hrun, Bool.or_false, Nat.zero_add]
  · rw [pageTable_withPages, countP_append, hinv.table, countP_singleton]
    change _ = if (s.owned p || inRun up npage p) = true then 1 else 0
    cases hrun : inRun up npage p with
    | false => simp
    | true => simp [hnew p hrun]
  · rcases mem_append.mp hb with hb | hb
    · rcases mem_cons.mp (hperm.mem_iff.mp hb) with rfl | hb
      · exact hup
      · exact hinv.pos_of_free hb
    · exact hinv.pos_of_live hb

theorem HeapInv.untouched {npage up : ℕ} (hinv : HeapInv s) (hpages : PagesLive s)
    (hnpage : 0 < npage) (haligned : up % pageUnits = 0)
    (hfresh : ∀ i < npage, s.owned (up / pageUnits + i) = false) :
    ∀ b ∈ s.memList, b.addr ≠ up + npage * pageUnits := by
  intro b hb haddr
  have hbpos := hinv.pos_of_free hb
  have hpage : b.addr / pageUnits = up / pageUnits + npage := by
    rw [pageUnits_eq] at *
    lia
  have howned : s.owned (b.addr / pageUnits) = true := by
    by_contra hnot
    have hcover := hinv.tiles b.addr
    rw [if_neg hnot] at hcover
    have hpos := cover_pos (u := b.addr) (mem_append_left s.live hb)
      ⟨le_rfl, Nat.lt_add_of_pos_right hbpos⟩
    lia
  obtain ⟨r, hr, hrun⟩ : ∃ r ∈ pageTable s, inRun r.pagePtr r.npage (b.addr / pageUnits) := by
    have htable := hinv.table (b.addr / pageUnits)
    rw [if_pos howned] at htable
    exact countP_pos_iff.mp (htable.symm ▸ Nat.one_pos)
  obtain ⟨hlow, hhigh⟩ := of_decide_eq_true hrun
  obtain ⟨hraligned, c, hc, hcr⟩ := hpages r hr
  have hcpos := hinv.pos_of_live hc
  have hapart := hinv.apart_free hc hb
  by_cases hbefore : r.pagePtr / pageUnits = b.addr / pageUnits
  · rw [pageUnits_eq] at *
    lia
  · have hlast : inRun r.pagePtr r.npage (up / pageUnits + (npage - 1)) = true :=
      decide_eq_true ⟨by lia, by lia⟩
    have hcount := hinv.table (up / pageUnits + (npage - 1))
    rw [hfresh (npage - 1) (by lia), if_neg Bool.false_ne_true, countP_eq_zero] at hcount
    exact hcount r hr hlast

theorem addr_of_mallocScan_insertPages {nunits : ℕ} {up : Block} {list : List Block} {f : Found}
    (hshort : ∀ b ∈ list, b.size < nunits) (hlong : nunits ≤ up.size)
    (hscan : mallocScan nunits (insertPages up list) = some f) : f.block.addr = up.addr := by
  have hup : ∀ rest g, mallocScan nunits (up :: rest) = some g → g.block.addr = up.addr := by
    intro rest g hg
    rw [mallocScan] at hg
    split_ifs at hg with hgt heq
    · obtain rfl := some.inj hg
      rfl
    · obtain rfl := some.inj hg
      rfl
    · omega
  induction list generalizing f with
  | nil => exact hup [] f hscan
  | cons b rest ih =>
    rw [insertPages] at hscan
    split_ifs at hscan with hbehind
    · exact hup (b :: rest) f hscan
    · have hb := hshort b mem_cons_self
      rw [mallocScan, if_neg (by omega), if_neg (by omega)] at hscan
      obtain ⟨g, hg, rfl⟩ := map_eq_some_iff.mp hscan
      have haddr := ih (fun c hc => hshort c (mem_cons_of_mem _ hc)) hg
      exact haddr

theorem npageOf_spec (hsize : 0 < size) (hsmall : size + 4103 < 4294967296) :
    0 < npageOf size ∧ nunitsOf size ≤ npageOf size * pageUnits := by
  unfold npageOf nunitsOf
  rw [add32_eq_of_lt hsmall, add32_eq_of_lt (by lia), pageUnits_eq, Slab.RT_MM_PAGE_SIZE]
  lia

theorem mem_withPages_ne {npage up u : ℕ} (hne : (withPages s npage up).mem u ≠ s.mem u) :
    u = up := by
  by_contra hu
  exact hne (update_of_ne hu _ _)

theorem HeapInv.exists_malloc (hinv : HeapInv s) (hpages : PagesLive s) (hsize : 0 < size)
    (hserved : MallocServed s size pages) (hfresh : FreshPages (npageOf size) pages s.owned) :
    ∃ b s', s.malloc size pages = some (some (b.addr + 1), s') ∧
      Malloced s (nunitsOf size) b s' ∧ PagesLive s' ∧
      s'.memList = listAfterMalloc s size pages := by
  unfold listAfterMalloc
  cases hscan : mallocScan (nunitsOf size) s.memList with
  | some f =>
    refine ⟨f.block, _, malloc_of_scan hinv.modSem hscan pages, hinv.handOut hscan, ?_, ?_⟩
    · refine hpages.keep ?_ fun b hb _ => ⟨b, ?_, rfl⟩
      · rw [handOut_eq]
        rfl
      · rw [handOut_eq]
        exact mem_cons_of_mem _ hb
    · rw [handOut_eq]
  | none =>
    have hshort := mallocScan_eq_none hscan
    obtain ⟨hsmall, hcnt, up, rest, rfl⟩ := hserved.2 hshort
    obtain ⟨hnpage, hfits⟩ := npageOf_spec hsize hsmall
    have hmore := hinv.withPages hnpage hfresh.1 hfresh.2.1 hcnt
      (hinv.untouched hpages hnpage hfresh.1 hfresh.2.1)
    have hmem : ⟨up, npageOf size * pageUnits⟩ ∈
        (ModuleHeap.withPages s (npageOf size) up).memList :=
      (insertPages_perm _ _).mem_iff.mpr mem_cons_self
    obtain ⟨f, hf⟩ := exists_mallocScan hmem hfits
    have hhanded := hmore.handOut hf
    have hup : f.block.addr = up := addr_of_mallocScan_insertPages hshort hfits hf
    refine ⟨f.block, _, ?_, { hhanded with mem := fun u hne => ?_ }, ?_, ?_⟩
    · rw [malloc_of_pages hinv.modSem hscan hcnt]
      exact malloc_of_scan hmore.modSem hf rest
    · by_cases hu : u = up
      · refine ⟨f.block, mem_append_right _ ?_, hup.trans hu.symm⟩
        rw [hhanded.live]
        exact mem_cons_self
      · refine hhanded.mem u fun heq => hne (heq.trans ?_)
        by_contra hchanged
        exact hu (mem_withPages_ne hchanged)
    · intro r hr
      rw [handOut_eq] at hr
      have hr : r ∈ pageTable (ModuleHeap.withPages s (npageOf size) up) := hr
      rw [hhanded.live]
      rw [pageTable_withPages, mem_append, mem_singleton] at hr
      rcases hr with hr | rfl
      · obtain ⟨haligned, b, hb, hbr⟩ := hpages r hr
        exact ⟨haligned, b, mem_cons_of_mem _ hb, hbr⟩
      · exact ⟨hfresh.1, f.block, mem_cons_self, hup⟩
    · change _ = match mallocScan (nunitsOf size)
          (ModuleHeap.withPages s (npageOf size) up).memList with
        | some f => f.list
        | none => []
      rw [hf, handOut_eq]

/-! ## `rt_module_free` -/

theorem HeapInv.exists_free (hinv : HeapInv s) (hn : n ∈ s.live) (hkeeps : KeepsPages s.memList n) :
    ∃ s', s.free (n.addr + 1) = some s' ∧ HeapInv s' ∧ s'.live = s.live.erase n ∧
      s'.mem = s.mem ∧ pageTable s' = pageTable s := by
  obtain ⟨f, hwalk, hf⟩ := exists_freeWalk hinv.sorted (hinv.pos_of_live hn)
    (fun b hb => hinv.pos_of_free hb) (fun b hb => hinv.apart_free hn hb) hkeeps
  have hfree : s.free (n.addr + 1) =
      some { s with memList := f.list, live := s.live.erase n, mem := s.mem } := by
    unfold free
    rw [hinv.header_eq hn, take_of_modSem hinv.modSem]
    simp only [bind_eq_bind, bind_some]
    rw [hwalk]
    simp only [bind_some]
    rw [hf.pages, hf.split]
    simp [mark, release, hinv.modSem]
  refine ⟨_, hfree, hinv.relist hf.sorted (fun b hb => ?_) fun u => ?_, rfl, rfl, rfl⟩
  · rcases mem_append.mp hb with hb | hb
    · exact hf.positive b hb
    · exact hinv.pos_of_live (mem_of_mem_erase hb)
  · have hperm := perm_cons_erase hn
    rw [cover_append, hf.cover, cover_cons, cover_append, cover_perm hperm,
      cover_cons n (s.live.erase n)]
    ring

/-! ## `rt_module_realloc` -/

structure Realloced (s : Module) (b : Block) (size p : ℕ) (s' : Module) : Prop extends
    HeapInv s' where
  pagesLive : PagesLive s'
  room : ∃ b', HasRoom s' p size b' ∧
    ∀ i, i + 1 < b.size → i + 1 < b'.size → s'.mem (p + i) = s.mem (b.addr + 1 + i)
  others : ∀ c ∈ s.live, c ≠ b → SameData s s' c

theorem le_nunitsOf (hsmall : size + 7 < 4294967296) : size ≤ (nunitsOf size - 1) * 8 := by
  unfold nunitsOf
  rw [add32_eq_of_lt hsmall]
  omega

theorem Malloced.sameData {nunits : ℕ} (hmalloc : Malloced s nunits b s') (hc : c ∈ s.live) :
    SameData s s' c := by
  refine hmalloc.toHeapInv.sameData ?_ hmalloc.mem
  rw [hmalloc.live]
  exact mem_cons_of_mem _ hc

theorem HeapInv.exists_cut (hinv : HeapInv s) (hpages : PagesLive s) (hb : b ∈ s.live)
    (hsmall : size + 7 < 4294967296) (hless : nunitsOf size < b.size)
    (hkeeps : KeepsPages s.memList ⟨b.addr + nunitsOf size, b.size - nunitsOf size⟩) :
    ∃ s', (({ s with live := ⟨b.addr, nunitsOf size⟩ ::
        ⟨b.addr + nunitsOf size, b.size - nunitsOf size⟩ :: s.live.erase b }.mark
          (some (b.addr + nunitsOf size))).free (b.addr + nunitsOf size + 1)) = some s' ∧
      Realloced s b size (b.addr + 1) s' := by
  have hpos := nunitsOf_pos size
  generalize hnunits : nunitsOf size = nunits at hless hkeeps hpos ⊢
  have hcut : HeapInv ({ s with live := ⟨b.addr, nunits⟩ ::
      ⟨b.addr + nunits, b.size - nunits⟩ :: s.live.erase b }.mark (some (b.addr + nunits))) := by
    refine hinv.relist hinv.sorted (fun c hc => ?_) fun u => ?_
    · rcases mem_append.mp hc with hc | hc
      · exact hinv.pos_of_free hc
      · rcases mem_cons.mp hc with rfl | hc
        · exact hpos
        · rcases mem_cons.mp hc with rfl | hc
          · exact Nat.sub_pos_of_lt hless
          · exact hinv.pos_of_live (mem_of_mem_erase hc)
    · rw [cover_append, cover_append, cover_perm (perm_cons_erase hb) u, cover_cons,
        cover_cons ⟨b.addr + nunits, b.size - nunits⟩, cover_cons b (s.live.erase b),
        cover_cut b.addr nunits b.size hless.le u]
      ring
  have hmark : ∀ u, (({ s with live := ⟨b.addr, nunits⟩ ::
      ⟨b.addr + nunits, b.size - nunits⟩ :: s.live.erase b }.mark
        (some (b.addr + nunits))).mem u ≠ s.mem u) → u = b.addr + nunits := by
    intro u hne
    by_contra hu
    exact hne (update_of_ne hu _ _)
  have hlive : ({ s with live := ⟨b.addr, nunits⟩ ::
      ⟨b.addr + nunits, b.size - nunits⟩ :: s.live.erase b }.mark (some (b.addr + nunits))).live =
        ⟨b.addr, nunits⟩ :: ⟨b.addr + nunits, b.size - nunits⟩ :: s.live.erase b := rfl
  have htable : pageTable ({ s with live := ⟨b.addr, nunits⟩ ::
      ⟨b.addr + nunits, b.size - nunits⟩ :: s.live.erase b }.mark (some (b.addr + nunits))) =
        pageTable s := rfl
  have hfree := hcut.exists_free (n := ⟨b.addr + nunits, b.size - nunits⟩)
    (mem_cons_of_mem _ mem_cons_self) hkeeps
  generalize hs₁ : ({ s with live := ⟨b.addr, nunits⟩ ::
      ⟨b.addr + nunits, b.size - nunits⟩ :: s.live.erase b }.mark (some (b.addr + nunits))) = s₁
    at hcut hmark hlive htable hfree ⊢
  obtain ⟨s', hs', hinv', hlive', hmem', htable'⟩ := hfree
  have hsame : ∀ c ∈ s₁.live, c.addr ≠ b.addr + nunits → SameData s s' c := by
    intro c hc hne
    have hdata := hcut.sameData hc fun u hu =>
      ⟨⟨b.addr + nunits, b.size - nunits⟩, mem_append_right _
        (hlive ▸ mem_cons_of_mem _ mem_cons_self), (hmark u hu).symm⟩
    refine ⟨?_, fun u hlow hhigh => ?_⟩
    · rw [hlive']
      refine (mem_erase_of_ne fun heq => hne ?_).mpr hc
      rw [heq]
    · rw [hmem']
      exact hdata.2 u hlow hhigh
  have hfirst : ⟨b.addr, nunits⟩ ∈ s₁.live := hlive ▸ mem_cons_self
  have hbdata := hsame _ hfirst (by dsimp only; lia)
  have hothers : ∀ c ∈ s.live, c ≠ b → SameData s s' c := by
    intro c hc hne
    refine hsame c ?_ fun haddr => ?_
    · rw [hlive]
      exact mem_cons_of_mem _ (mem_cons_of_mem _ ((mem_erase_of_ne hne).mpr hc))
    · have hapart := hinv.apart_live hb hc hne
      lia
  refine ⟨s', hs', { hinv' with
    pagesLive := hpages.keep (htable'.trans htable) fun c hc _ => ?_
    room := ⟨⟨b.addr, nunits⟩, ⟨hbdata.1, rfl, ?_⟩, fun i _ hi => ?_⟩
    others := hothers }⟩
  · by_cases hcb : c = b
    · exact ⟨_, hbdata.1, (congrArg Block.addr hcb).symm⟩
    · exact ⟨c, (hothers c hc hcb).1, rfl⟩
  · rw [← hnunits]
    exact le_nunitsOf hsmall
  · exact hbdata.2 _ (by dsimp only; lia) (by dsimp only at hi ⊢; lia)

/-- A block grows into the free block behind it. -/
theorem growInto_spec {nunits : ℕ} {rest rest' : List Block} {split : Option ℕ}
    (hsorted : Sorted (c :: rest)) (hpos : ∀ d ∈ rest, 0 < d.size) (hless : b.size < nunits)
    (hgrow : growInto b nunits rest = some (rest', split)) :
    Sorted (c :: rest') ∧ (∀ d ∈ rest', 0 < d.size) ∧
      (∀ u, cover (⟨b.addr, nunits⟩ :: rest') u = cover (b :: rest) u) ∧
      ∀ a ∈ split, ∃ d ∈ rest', d.addr = a := by
  cases rest with
  | nil => exact absurd hgrow (by simp [growInto])
  | cons p rest =>
    have hcp := (pairwise_cons.mp hsorted).1 p mem_cons_self
    have htail := (pairwise_cons.mp hsorted).2
    rw [growInto] at hgrow
    split_ifs at hgrow with hbehind hfit
    · obtain ⟨rfl, rfl⟩ := Prod.mk.inj (some.inj hgrow)
      refine ⟨?_, fun d hd => hpos d (mem_cons_of_mem _ hd), fun u => ?_,
        fun a ha => absurd ha (by simp)⟩
      · exact hsorted.sublist ((sublist_cons_self _ _).cons_cons _)
      · have hjoin := cover_join b.addr b.size p.size u
        rw [← hbehind.2, show b.size + p.size = nunits by lia] at hjoin
        rw [cover_cons, hjoin, cover_cons b (p :: rest), cover_cons p rest]
        ring
    · obtain ⟨rfl, rfl⟩ := Prod.mk.inj (some.inj hgrow)
      have hlong : nunits < b.size + p.size := by lia
      refine ⟨?_, fun d hd => ?_, fun u => ?_, fun a ha => ?_⟩
      · refine pairwise_cons.mpr ⟨fun d hd => ?_,
          sorted_cons_of_end htail (by dsimp only; lia) (by dsimp only; lia)⟩
        rcases mem_cons.mp hd with rfl | hd
        · dsimp only
          lia
        · exact (pairwise_cons.mp hsorted).1 d (mem_cons_of_mem _ hd)
      · rcases mem_cons.mp hd with rfl | hd
        · dsimp only
          lia
        · exact hpos d (mem_cons_of_mem _ hd)
      · have hcut := cover_cut b.addr nunits (b.size + p.size) hlong.le u
        rw [cover_join, ← hbehind.2] at hcut
        rw [cover_cons, cover_cons ⟨b.addr + nunits, p.size + b.size - nunits⟩,
          cover_cons b (p :: rest), cover_cons p rest, Nat.add_comm p.size, ← Nat.add_assoc,
          ← hcut]
        ring
      · obtain rfl := mem_some.mp ha
        exact ⟨_, mem_cons_self, rfl⟩

theorem HeapInv.grown {rest rest' : List Block} {split : Option ℕ} (hinv : HeapInv s)
    (hpages : PagesLive s) (hb : b ∈ s.live) (hsmall : size + 7 < 4294967296) (hless : b.size < nunitsOf size)
    (hlist : s.memList = c :: rest)
    (hgrow : growInto b (nunitsOf size) rest = some (rest', split)) :
    Realloced s b size (b.addr + 1) ({ s with
      memList := c :: rest'
      live := ⟨b.addr, nunitsOf size⟩ :: s.live.erase b }.mark split) := by
  have hsorted := hinv.sorted
  rw [hlist] at hsorted
  obtain ⟨hsorted', hpos', hcover, hsplit⟩ := growInto_spec hsorted
    (fun d hd => hinv.pos_of_free (hlist ▸ mem_cons_of_mem _ hd)) hless hgrow
  have hmark := mark_eq ({ s with
    memList := c :: rest'
    live := ⟨b.addr, nunitsOf size⟩ :: s.live.erase b }) split
  have hgrown : HeapInv ({ s with
      memList := c :: rest'
      live := ⟨b.addr, nunitsOf size⟩ :: s.live.erase b }.mark split) := by
    rw [hmark]
    refine hinv.relist hsorted' (fun d hd => ?_) fun u => ?_
    · rcases mem_append.mp hd with hd | hd
      · rcases mem_cons.mp hd with rfl | hd
        · exact hinv.pos_of_free (hlist ▸ mem_cons_self)
        · exact hpos' d hd
      · rcases mem_cons.mp hd with rfl | hd
        · exact nunitsOf_pos size
        · exact hinv.pos_of_live (mem_of_mem_erase hd)
    · have hu := hcover u
      rw [cover_cons, cover_cons b rest] at hu
      rw [cover_append, cover_append, hlist, cover_cons c rest', cover_cons c rest,
        cover_cons ⟨b.addr, nunitsOf size⟩, cover_perm (perm_cons_erase hb) u,
        cover_cons b (s.live.erase b)]
      lia
  have hstart : ∀ u, (({ s with
      memList := c :: rest'
      live := ⟨b.addr, nunitsOf size⟩ :: s.live.erase b }.mark split).mem u ≠ s.mem u) →
        ∃ d ∈ c :: rest', d.addr = u := by
    intro u hne
    obtain ⟨d, hd, hdu⟩ := hsplit u (mem_mark_ne hne)
    exact ⟨d, mem_cons_of_mem _ hd, hdu⟩
  have hsame : ∀ d ∈ (⟨b.addr, nunitsOf size⟩ : Block) :: s.live.erase b,
      SameData s ({ s with
        memList := c :: rest'
        live := ⟨b.addr, nunitsOf size⟩ :: s.live.erase b }.mark split) d := by
    intro d hd
    refine hgrown.sameData ?_ fun u hne => ?_
    · rwa [hmark]
    · obtain ⟨e, he, heu⟩ := hstart u hne
      refine ⟨e, mem_append_left _ ?_, heu⟩
      rwa [hmark]
  have hbdata := hsame _ mem_cons_self
  have hothers : ∀ d ∈ s.live, d ≠ b → SameData s _ d := fun d hd hne =>
    hsame d (mem_cons_of_mem _ ((mem_erase_of_ne hne).mpr hd))
  refine { hgrown with
    pagesLive := hpages.keep ?_ fun d hd _ => ?_
    room := ⟨_, ⟨hbdata.1, rfl, le_nunitsOf hsmall⟩, fun i hi hi' => ?_⟩
    others := hothers }
  · rw [hmark]
    rfl
  · by_cases hdb : d = b
    · exact ⟨_, hbdata.1, (congrArg Block.addr hdb).symm⟩
    · exact ⟨d, (hothers d hd hdb).1, rfl⟩
  · exact hbdata.2 _ (by dsimp only; lia) (by dsimp only at hi' ⊢; lia)

theorem HeapInv.exists_moved (hinv : HeapInv s) (hpages : PagesLive s) (hb : b ∈ s.live) (hsize : 0 < size)
    (hless : b.size < nunitsOf size) (hserved : MallocServed s size pages)
    (hkeeps : KeepsPages (listAfterMalloc s size pages) b)
    (hfresh : FreshPages (npageOf size) pages s.owned) :
    ∃ p s', s.reallocMoved b size pages = some (some p, s') ∧ Realloced s b size p s' := by
  obtain ⟨x, s₁, hmalloc, hx, hpages₁, hlist⟩ := hinv.exists_malloc hpages hsize hserved hfresh
  have hbx := hx.sameData hb
  have hxlive : x ∈ s₁.live := hx.live ▸ mem_cons_self
  have hmoved : HeapInv (s₁.move (x.addr + 1) (b.addr + 1) b.size) :=
    hx.toHeapInv.relist hx.sorted hx.positive fun _ => rfl
  obtain ⟨s', hfree, hinv', hlive', hmem', htable⟩ := hmoved.exists_free (n := b) hbx.1 (by
    change KeepsPages s₁.memList b
    rwa [hlist])
  have hlive : s'.live = s₁.live.erase b := hlive'
  have hmem : ∀ u, s'.mem u = if x.addr + 1 ≤ u ∧ u < x.addr + 1 + b.size then
      s₁.mem (b.addr + 1 + (u - (x.addr + 1))) else s₁.mem u := fun u => congrFun hmem' u
  have hxsize := hx.size
  -- the new block is not one of those which were live
  have hnew : ∀ c ∈ s.live, c ≠ x := by
    rintro c hc rfl
    have hhere : c ∈ s₁.memList ++ s₁.live.erase c := by
      rw [hx.live, erase_cons_head]
      exact mem_append_right _ hc
    have hapart := hx.toHeapInv.apart hxlive hhere
    lia
  refine ⟨x.addr + 1, s', ?_, { hinv' with
    pagesLive := hpages₁.keep htable fun c hc haligned => ⟨c, ?_, rfl⟩
    room := ⟨x, ⟨?_, rfl, ?_⟩, ?_⟩
    others := ?_ }⟩
  · unfold reallocMoved
    rw [hmalloc]
    simp only [bind_eq_bind, bind_some]
    rw [hfree]
    rfl
  · rw [hlive]
    exact (mem_erase_of_ne fun h : c = b => hkeeps.1 (h ▸ haligned)).mpr hc
  · rw [hlive]
    exact (mem_erase_of_ne (hnew b hb).symm).mpr hxlive
  · rw [hxsize]
    exact le_nunitsOf hserved.1
  · intro i hi _
    rw [hmem, if_pos (by lia), Nat.add_sub_cancel_left]
    exact hbx.2 _ (by lia) (by lia)
  · intro c hc hne
    have hcx := hx.sameData hc
    refine ⟨?_, fun u hlow hhigh => ?_⟩
    · rw [hlive]
      exact (mem_erase_of_ne hne).mpr hcx.1
    · have hapart := hx.toHeapInv.apart_live hxlive hcx.1 (hnew c hc)
      rw [hmem, if_neg (by lia)]
      exact hcx.2 u hlow hhigh

theorem growInto_eq_none {nunits : ℕ} {rest : List Block} (hgrow : growInto b nunits rest = none) :
    ∀ p ∈ rest[0]?, ¬(nunits - b.size ≤ p.size ∧ p.addr = b.addr + b.size) := by
  cases rest with
  | nil => exact fun p hp => absurd hp (by simp)
  | cons q rest =>
    intro p hp
    obtain rfl : q = p := by simpa using hp
    rw [growInto] at hgrow
    intro hbehind
    rw [if_pos hbehind] at hgrow
    split_ifs at hgrow

theorem HeapInv.exists_realloc (hinv : HeapInv s) (hpages : PagesLive s) (hb : b ∈ s.live)
    (hsize : size ≠ 0) (hserved : ReallocServed s b size pages)
    (hfresh : FreshPages (npageOf size) pages s.owned) :
    ∃ p s', s.realloc (some (b.addr + 1)) size pages = some (some p, s') ∧
      Realloced s b size p s' := by
  obtain ⟨hsmall, hcut, hgrow⟩ := hserved
  unfold realloc
  simp only [if_neg hsize, hinv.header_eq hb, bind_eq_bind, bind_some]
  by_cases hle : nunitsOf size ≤ b.size
  · rw [if_pos hle]
    by_cases heq : nunitsOf size = b.size
    · rw [if_pos heq]
      have hroom := le_nunitsOf hsmall
      rw [heq] at hroom
      exact ⟨_, s, rfl, { hinv with
        pagesLive := hpages
        room := ⟨b, ⟨hb, rfl, hroom⟩, fun _ _ _ => rfl⟩
        others := fun c hc _ => ⟨hc, fun _ _ _ => rfl⟩ }⟩
    · rw [if_neg heq]
      have hless : nunitsOf size < b.size := by omega
      obtain ⟨s', hfree, hre⟩ := hinv.exists_cut hpages hb hsmall hless (hcut hless)
      rw [hfree]
      exact ⟨_, s', rfl, hre⟩
  · rw [if_neg hle]
    obtain ⟨hne, hmoved⟩ := hgrow (by omega)
    cases hlist : s.memList with
    | nil => exact absurd hlist hne
    | cons c rest =>
      dsimp only
      cases hinto : growInto b (nunitsOf size) rest with
      | some grown =>
        exact ⟨_, _, rfl, hinv.grown hpages hb hsmall (by omega) hlist hinto⟩
      | none =>
        obtain ⟨hmalloc, hkeeps⟩ := hmoved (by
          rw [hlist]
          exact growInto_eq_none hinto)
        exact hinv.exists_moved hpages hb (Nat.pos_of_ne_zero hsize) (by omega) hmalloc hkeeps
          hfresh

/-! ## Runs -/

/-- Each call returns, keeps the tiling and the data of the blocks in use. -/
theorem HeapInv.execute (hinv : HeapInv s) (hpages : PagesLive s) (henabled : call.Enabled s)
    (hserved : Served s call) :
    ∃ reply s', execute s call = some (reply, s') ∧ HeapInv s' ∧ PagesLive s' ∧
      KeepsData s call reply s' := by
  have hmalloc : ∀ size pages, 0 < size → FreshPages (npageOf size) pages s.owned →
      MallocServed s size pages → ∃ reply s', s.malloc size pages = some (reply, s') ∧
        HeapInv s' ∧ PagesLive s' ∧ s'.modSem = s.modSem ∧ (∀ b ∈ s.live, SameData s s' b) ∧
          ∃ p b, reply = some p ∧ HasRoom s' p size b := by
    intro size pages hsize hfresh hserved
    obtain ⟨b, s', hreply, hb, hpages', -⟩ := hinv.exists_malloc hpages hsize hserved hfresh
    refine ⟨_, s', hreply, hb.toHeapInv, hpages', hb.modSem.trans hinv.modSem.symm,
      fun c hc => hb.sameData hc, _, b, rfl, ?_, rfl, ?_⟩
    · exact hb.live ▸ mem_cons_self
    · rw [hb.size]
      exact le_nunitsOf hserved.1
  have hfree : ∀ b ∈ s.live, KeepsPages s.memList b → ∃ s', s.free (b.addr + 1) = some s' ∧
      HeapInv s' ∧ PagesLive s' ∧ s'.modSem = s.modSem ∧
        ∀ c ∈ s.live, c.addr + 1 ≠ b.addr + 1 → SameData s s' c := by
    intro b hb hkeeps
    obtain ⟨s', hreply, hinv', hlive, hmem, htable⟩ := hinv.exists_free hb hkeeps
    have hkept : ∀ c ∈ s.live, c ≠ b → c ∈ s'.live := fun c hc hne =>
      hlive ▸ (mem_erase_of_ne hne).mpr hc
    refine ⟨s', hreply, hinv', hpages.keep htable fun c hc haligned => ⟨c, ?_, rfl⟩,
      hinv'.modSem.trans hinv.modSem.symm, fun c hc hne => ⟨?_, fun u _ _ => congrFun hmem u⟩⟩
    · exact hkept c hc fun h => hkeeps.1 (h ▸ haligned)
    · exact hkept c hc fun h => hne (by rw [h])
  cases call with
  | malloc size pages =>
    obtain ⟨reply, s', hreply, hinv', hpages', hdata⟩ :=
      hmalloc size pages henabled.1 henabled.2.2 hserved
    exact ⟨reply, s', hreply, hinv', hpages', hdata⟩
  | realloc ptr size pages =>
    cases ptr with
    | none =>
      obtain ⟨reply, s', hreply, hinv', hpages', hdata⟩ :=
        hmalloc size pages henabled.2.2 henabled.2.1 hserved
      exact ⟨reply, s', hreply, hinv', hpages', hdata⟩
    | some addr =>
      obtain ⟨-, hfresh, b, hb, rfl⟩ := henabled
      have hserved := hserved b hb rfl
      by_cases hsize : size = 0
      · rw [if_pos hsize] at hserved
        obtain ⟨s', hreply, hinv', hpages', hsem, hdata⟩ := hfree b hb hserved
        refine ⟨none, s', ?_, hinv', hpages', hsem, hdata, fun _ => rfl, fun h => absurd hsize h⟩
        change s.realloc (some (b.addr + 1)) size pages = _
        unfold realloc
        simp only [if_pos hsize, hreply, map_some]
      · rw [if_neg hsize] at hserved
        obtain ⟨p, s', hreply, hre⟩ := hinv.exists_realloc hpages hb hsize hserved hfresh
        obtain ⟨b', hroom, hkept⟩ := hre.room
        exact ⟨some p, s', hreply, hre.toHeapInv, hre.pagesLive, hre.modSem.trans hinv.modSem.symm,
          fun c hc hne => hre.others c hc fun h => hne (by rw [h]),
          fun h => absurd h hsize, fun _ => ⟨p, b, b', rfl, hroom, hb, rfl, hkept⟩⟩
  | free addr =>
    obtain ⟨b, hb, rfl⟩ := henabled
    obtain ⟨s', hreply, hinv', hpages', hdata⟩ := hfree b hb (hserved b hb rfl)
    refine ⟨none, s', ?_, hinv', hpages', hdata⟩
    change (s.free (b.addr + 1)).map _ = _
    rw [hreply]
    rfl
  | store addr data =>
    refine ⟨none, _, rfl, hinv.relist hinv.sorted hinv.positive fun _ => rfl,
      hpages.keep rfl fun b hb _ => ⟨b, hb, rfl⟩, rfl,
      fun b hb hne => ⟨hb, fun u hlow hhigh => update_of_ne ?_ _ _⟩⟩
    rintro rfl
    exact hne ⟨hlow.le, hhigh⟩

theorem heapInv_init (hinit : heapSystem.init s) : HeapInv s ∧ PagesLive s := by
  obtain ⟨hlist, hlive, hcnt, hsem, howned⟩ := hinit
  have htable : pageTable s = [] := by simp [pageTable, hcnt]
  refine ⟨⟨⟨?_, fun u => ?_, ?_, fun p => ?_, hsem⟩, fun b hb => ?_⟩, fun r hr => ?_⟩
  · rw [hlist]
    exact Pairwise.nil
  · simp [hlist, hlive, howned, cover]
  · rw [hcnt]
    exact Nat.zero_le _
  · simp [htable, howned]
  · rw [hlist, hlive] at hb
    cases hb
  · rw [htable] at hr
    cases hr

/-- In every run in which pages are there when they are asked for and none are given back, the
blocks tile the pages of the page table, and every such call returns and keeps the data. -/
theorem heapTiled_and_keepsData (s : Module) (hreach : heapSystem.Reachable Served s) :
    HeapTiled s ∧ ∀ call : Call, call.Enabled s → Served s call →
      ∃ reply s', execute s call = some (reply, s') ∧ KeepsData s call reply s' := by
  have hinv : HeapInv s ∧ PagesLive s := by
    refine hreach.invariant (fun _ => heapInv_init) fun s call s' hinv hserved hstep => ?_
    obtain ⟨henabled, reply, hreply⟩ := hstep
    obtain ⟨reply', next, hnext, hinv', hpages', -⟩ := hinv.1.execute hinv.2 henabled hserved
    obtain ⟨-, rfl⟩ := Prod.mk.inj (some.inj (hreply.symm.trans hnext))
    exact ⟨hinv', hpages'⟩
  refine ⟨hinv.1.toHeapTiled, fun call henabled hserved => ?_⟩
  obtain ⟨reply, s', hreply, -, -, hdata⟩ := hinv.1.execute hinv.2 henabled hserved
  exact ⟨reply, s', hreply, hdata⟩

/-! ## A module with one page -/

def sampleModule : Module := ⟨[], [], fun _ => none, fun _ => ⟨0, 0⟩, 0, 1, fun _ => false⟩

theorem init_sampleModule : heapSystem.init sampleModule := ⟨rfl, rfl, rfl, rfl, fun _ => rfl⟩

def smallMalloc (s : Module) (size : ℕ) (pages : List (Option ℕ)) : Bool :=
  decide (0 < size ∧ size + 4103 < 4294967296) && match pages with
    | [] => decide (∃ b ∈ s.memList, nunitsOf size ≤ b.size)
    | [some up] => decide (up % pageUnits = 0 ∧ s.pageCnt < PAGE_COUNT_MAX ∧
        ∀ i < npageOf size, s.owned (up / pageUnits + i) = false)
    | _ => false

theorem mallocServed_of_smallMalloc (hsmall : smallMalloc s size pages = true) :
    (0 < size ∧ size < 4294967296 ∧ FreshPages (npageOf size) pages s.owned) ∧
      MallocServed s size pages := by
  unfold smallMalloc at hsmall
  rw [Bool.and_eq_true] at hsmall
  obtain ⟨hsize, hsmall⟩ := hsmall
  obtain ⟨hpos, hless⟩ := of_decide_eq_true hsize
  split at hsmall
  · obtain ⟨b, hb, hlong⟩ := of_decide_eq_true hsmall
    refine ⟨⟨hpos, by lia, trivial⟩, by lia, fun hshort => ?_⟩
    exact absurd (hshort b hb) (by lia)
  · obtain ⟨haligned, hcnt, hfresh⟩ := of_decide_eq_true hsmall
    exact ⟨⟨hpos, by lia, haligned, hfresh, trivial⟩, by lia, fun _ => ⟨hless, hcnt, _, _, rfl⟩⟩
  · cases hsmall

def nextState (s : Module) (call : Call) : Module := ((execute s call).map Prod.snd).getD s

theorem exists_reply (hreturns : (execute s call).isSome = true) :
    ∃ reply, execute s call = some (reply, nextState s call) := by
  obtain ⟨⟨reply, s'⟩, hreply⟩ := isSome_iff_exists.mp hreturns
  refine ⟨reply, ?_⟩
  rw [nextState, hreply]
  rfl

def onePageCall (s : Module) : Call → Bool
  | .malloc size pages => smallMalloc s size pages
  | .realloc (some addr) size [] => decide (size ≠ 0 ∧ size + 7 < 4294967296 ∧
      (∃ b ∈ s.live, b.addr + 1 = addr) ∧ ∀ b ∈ s.live, b.addr + 1 = addr →
        b.size < nunitsOf size ∧ ∃ p ∈ s.memList[1]?,
          nunitsOf size - b.size ≤ p.size ∧ p.addr = b.addr + b.size)
  | .realloc _ _ _ => false
  | .free addr => decide ((∃ b ∈ s.live, b.addr + 1 = addr) ∧
      ∀ b ∈ s.live, b.addr + 1 = addr → KeepsPages s.memList b)
  | .store addr _ => decide (∃ b ∈ s.live, b.addr < addr ∧ addr < b.addr + b.size)

theorem keepsData_of_onePage : ∃ s, heapSystem.Reachable Served s ∧
      (s.memList.map Block.addr, s.live.map Block.addr, s.mem 519) =
        ([515, 525], [518, 512], some 7) ∧
      HeapTiled s ∧ ∀ call : Call, call.Enabled s → Served s call →
        ∃ reply s', execute s call = some (reply, s') ∧ KeepsData s call reply s' := by
  have hrun : (TransitionSystem.tryRun
      (fun s call => (execute s call).isSome && onePageCall s call) nextState
      [.malloc 16 [some 512], .malloc 16 [], .malloc 24 [], .free 516, .store 519 7,
        .realloc (some 519) 48 []]
      sampleModule).map
      (fun s => (s.memList.map Block.addr, s.live.map Block.addr, s.mem 519)) =
        some ([515, 525], [518, 512], some 7) := by
    decide +kernel
  obtain ⟨s, hreach, hview⟩ := TransitionSystem.exists_tryRun Served init_sampleModule hrun (by
    intro s call htest
    rw [Bool.and_eq_true] at htest
    obtain ⟨hreturns, htest⟩ := htest
    have hreply := exists_reply hreturns
    unfold onePageCall at htest
    split at htest
    · obtain ⟨henabled, hserved⟩ := mallocServed_of_smallMalloc htest
      exact ⟨hserved, henabled, hreply⟩
    · rename_i addr size
      obtain ⟨hsize, hsmall, hlive, hgrows⟩ := of_decide_eq_true htest
      refine ⟨fun b hb hba => ?_, ⟨by omega, trivial, hlive⟩, hreply⟩
      obtain ⟨hless, p, hp, hbehind⟩ := hgrows b hb hba
      rw [if_neg hsize]
      refine ⟨hsmall, fun h => absurd h (by omega), fun _ => ⟨fun hnil => ?_, fun hnot => ?_⟩⟩
      · rw [hnil] at hp
        exact absurd hp (by simp)
      · exact absurd hbehind (hnot p hp)
    · cases htest
    · obtain ⟨hlive, hkeeps⟩ := of_decide_eq_true htest
      exact ⟨hkeeps, hlive, hreply⟩
    · exact ⟨trivial, (of_decide_eq_true htest :), hreply⟩)
  exact ⟨s, hreach, hview, heapTiled_and_keepsData s hreach⟩

def mallocOrFree (s : Module) : Call → Bool
  | .malloc size pages => smallMalloc s size pages
  | .free addr => decide (∃ b ∈ s.live, b.addr + 1 = addr)
  | _ => false

/-- `mod_sem` is not released when there are no pages, and the page table counts more entries than
it has when the only page is given back. -/
theorem not_heapTiled_and_keepsData :
    (∃ s call reply s', heapSystem.Reachable (fun _ _ => True) s ∧ call.Enabled s ∧
      execute s call = some (reply, s') ∧ ¬KeepsData s call reply s') ∧
    ∃ s, heapSystem.Reachable (fun _ _ => True) s ∧ ¬HeapTiled s := by
  constructor
  · refine ⟨sampleModule, .malloc 16 [none], none, { sampleModule with modSem := 0 },
      .start init_sampleModule, ⟨by decide, by decide, trivial⟩, ?_, fun hkept => ?_⟩
    · simp [execute, Module.malloc, Module.take, sampleModule, mallocScan]
    · exact absurd hkept.1 (by decide)
  · have hrun : (TransitionSystem.tryRun
        (fun s call => (execute s call).isSome && mallocOrFree s call) nextState
        [.malloc 16 [some 512], .free 513] sampleModule).map pageCnt =
          some 4294967295 := by
      decide +kernel
    obtain ⟨s, hreach, hview⟩ := TransitionSystem.exists_tryRun (fun _ _ => True)
      init_sampleModule hrun (by
        intro s call htest
        rw [Bool.and_eq_true] at htest
        obtain ⟨hreturns, htest⟩ := htest
        have hreply := exists_reply hreturns
        unfold mallocOrFree at htest
        split at htest
        · exact ⟨trivial, (mallocServed_of_smallMalloc htest).1, hreply⟩
        · exact ⟨trivial, (of_decide_eq_true htest :), hreply⟩
        · exact absurd htest Bool.false_ne_true)
    refine ⟨s, hreach, fun htiled => ?_⟩
    have hcnt := htiled.pageCnt
    rw [hview] at hcnt
    exact absurd hcnt (by decide)

end RtThread.ModuleHeap
