import RtThread.ModuleHeap

/-!
# Blocks which tile pages

How often a unit lies in a list of blocks does not change when a block is cut or two are
joined.  Each walk over the free list keeps it sorted.
-/

namespace RtThread.ModuleHeap

open List Option

def Block.Has (b : Block) (u : ℕ) : Prop := b.addr ≤ u ∧ u < b.addr + b.size

instance (b : Block) (u : ℕ) : Decidable (b.Has u) :=
  inferInstanceAs (Decidable (_ ∧ _))

def cover (bs : List Block) (u : ℕ) : ℕ := bs.countP fun b => b.Has u

def Sorted (bs : List Block) : Prop :=
  bs.Pairwise fun b c => b.addr < c.addr ∧ b.addr + b.size ≤ c.addr

variable {b c n : Block} {bs cs list : List Block} {u nunits : ℕ}

theorem cover_cons (b : Block) (bs : List Block) (u : ℕ) :
    cover (b :: bs) u = cover [b] u + cover bs u := by
  unfold cover
  rw [countP_cons, countP_singleton]
  ring

theorem cover_append (bs cs : List Block) (u : ℕ) :
    cover (bs ++ cs) u = cover bs u + cover cs u := countP_append

theorem cover_perm (hperm : bs.Perm cs) (u : ℕ) : cover bs u = cover cs u := hperm.countP_eq _

theorem cover_singleton (b : Block) (u : ℕ) : cover [b] u = if b.Has u then 1 else 0 := by
  unfold cover
  rw [countP_singleton]
  simp

theorem cover_singleton_eq_one : cover [b] u = 1 ↔ b.Has u := by
  rw [cover_singleton]
  split_ifs with h <;> simp [h]

theorem cover_cut (addr k size : ℕ) (hle : k ≤ size) (u : ℕ) :
    cover [⟨addr, size⟩] u = cover [⟨addr, k⟩] u + cover [⟨addr + k, size - k⟩] u := by
  rw [cover_singleton, cover_singleton, cover_singleton]
  split_ifs <;> simp only [Block.Has] at * <;> lia

theorem cover_pos (hb : b ∈ bs) (hu : b.Has u) : 0 < cover bs u :=
  countP_pos_iff.mpr ⟨b, hb, by simpa using hu⟩

variable (n bs) in
theorem apart_of_cover (hcover : ∀ u, cover (n :: bs) u ≤ 1) (hn : 0 < n.size) (hb : b ∈ bs)
    (hpos : 0 < b.size) : b.addr + b.size ≤ n.addr ∨ n.addr + n.size ≤ b.addr := by
  by_contra hmeet
  have hboth := hcover (max n.addr b.addr)
  have hnu : n.Has (max n.addr b.addr) := ⟨by lia, by lia⟩
  have hbu : b.Has (max n.addr b.addr) := ⟨by lia, by lia⟩
  have hone := cover_singleton_eq_one.mpr hnu
  have hmore := cover_pos hb hbu
  rw [cover_cons] at hboth
  lia

theorem sorted_cons_of_end (hsorted : Sorted (b :: bs))
    (hend : c.addr + c.size = b.addr + b.size) (hpos : 0 < c.size) : Sorted (c :: bs) := by
  obtain ⟨hhead, htail⟩ := pairwise_cons.mp hsorted
  refine pairwise_cons.mpr ⟨fun d hd => ?_, htail⟩
  have hd := hhead d hd
  omega

structure Found.Spec (f : Found) (nunits : ℕ) (list : List Block) : Prop where
  size : f.block.size = nunits
  cover : ∀ u, cover (f.block :: f.list) u = cover list u
  sorted : Sorted f.list
  positive : ∀ b ∈ f.list, 0 < b.size
  within : ∀ b ∈ f.list, ∃ c ∈ list, c.addr ≤ b.addr
  split : ∀ a ∈ f.split, ∃ b ∈ f.list, b.addr = a
  starts : ∀ b ∈ list, ∃ c ∈ f.block :: f.list, c.addr = b.addr

/-- The block found and the list left cover what the list covered. -/
theorem mallocScan_spec {f : Found} (hsorted : Sorted list)
    (hpos : ∀ b ∈ list, 0 < b.size) (hfound : mallocScan nunits list = some f) :
    f.Spec nunits list := by
  induction list generalizing f with
  | nil => exact absurd hfound (by simp [mallocScan])
  | cons b rest ih =>
    have hrest := (pairwise_cons.mp hsorted).2
    have hposrest : ∀ c ∈ rest, 0 < c.size := fun c hc => hpos c (mem_cons_of_mem _ hc)
    rw [mallocScan] at hfound
    split_ifs at hfound with hlong hfit
    · obtain rfl := some.inj hfound
      refine ⟨rfl, fun u => ?_, ?_, ?_, ?_, ?_, ?_⟩
      · rw [cover_cons, cover_cons ⟨b.addr + nunits, b.size - nunits⟩, cover_cons b,
          show b = ⟨b.addr, b.size⟩ from rfl, cover_cut b.addr nunits b.size (by lia) u]
        ring
      · exact sorted_cons_of_end hsorted (by dsimp only; lia) (by dsimp only; lia)
      · intro c hc
        rcases mem_cons.mp hc with rfl | hc
        · dsimp only
          lia
        · exact hposrest c hc
      · intro c hc
        rcases mem_cons.mp hc with rfl | hc
        · exact ⟨b, mem_cons_self, Nat.le_add_right _ _⟩
        · exact ⟨c, mem_cons_of_mem _ hc, le_rfl⟩
      · intro a ha
        obtain rfl := mem_some.mp ha
        exact ⟨_, mem_cons_self, rfl⟩
      · intro c hc
        rcases mem_cons.mp hc with rfl | hc
        · exact ⟨_, mem_cons_self, rfl⟩
        · exact ⟨c, mem_cons_of_mem _ (mem_cons_of_mem _ hc), rfl⟩
    · obtain rfl := some.inj hfound
      exact ⟨hfit, fun u => rfl, hrest, hposrest,
        fun c hc => ⟨c, mem_cons_of_mem _ hc, le_rfl⟩, fun a ha => absurd ha (by simp),
        fun c hc => ⟨c, hc, rfl⟩⟩
    · obtain ⟨g, hg, rfl⟩ := map_eq_some_iff.mp hfound
      have hspec := ih hrest hposrest hg
      refine ⟨hspec.size, fun u => ?_, ?_, ?_, ?_, ?_, ?_⟩
      · have hcover := hspec.cover u
        rw [cover_cons] at hcover
        rw [cover_cons, cover_cons b g.list, cover_cons b rest, ← hcover]
        ring
      · refine pairwise_cons.mpr ⟨fun c hc => ?_, hspec.sorted⟩
        obtain ⟨d, hd, hle⟩ := hspec.within c hc
        have hbd := (pairwise_cons.mp hsorted).1 d hd
        lia
      · intro c hc
        rcases mem_cons.mp hc with rfl | hc
        · exact hpos _ mem_cons_self
        · exact hspec.positive c hc
      · intro c hc
        rcases mem_cons.mp hc with rfl | hc
        · exact ⟨c, mem_cons_self, le_rfl⟩
        · obtain ⟨d, hd, hle⟩ := hspec.within c hc
          exact ⟨d, mem_cons_of_mem _ hd, hle⟩
      · intro a ha
        obtain ⟨c, hc, hca⟩ := hspec.split a ha
        exact ⟨c, mem_cons_of_mem _ hc, hca⟩
      · intro c hc
        rcases mem_cons.mp hc with rfl | hc
        · exact ⟨c, mem_cons_of_mem _ mem_cons_self, rfl⟩
        · obtain ⟨d, hd, hdc⟩ := hspec.starts c hc
          rcases mem_cons.mp hd with rfl | hd
          · exact ⟨_, mem_cons_self, hdc⟩
          · exact ⟨d, mem_cons_of_mem _ (mem_cons_of_mem _ hd), hdc⟩

theorem mallocScan_eq_none (hnone : mallocScan nunits list = none) :
    ∀ b ∈ list, b.size < nunits := by
  induction list with
  | nil => exact nofun
  | cons b rest ih =>
    rw [mallocScan] at hnone
    split_ifs at hnone with hlong hfit
    intro c hc
    rcases mem_cons.mp hc with rfl | hc
    · omega
    · exact ih (map_eq_none_iff.mp hnone) c hc

theorem exists_mallocScan (hb : b ∈ list) (hsize : nunits ≤ b.size) :
    ∃ f, mallocScan nunits list = some f := by
  cases hscan : mallocScan nunits list with
  | none => exact absurd (mallocScan_eq_none hscan b hb) (by omega)
  | some f => exact ⟨f, rfl⟩

theorem insertPages_perm (up : Block) (list : List Block) :
    (insertPages up list).Perm (up :: list) := by
  induction list with
  | nil => exact Perm.refl _
  | cons b rest ih =>
    rw [insertPages]
    split_ifs with hbehind
    · exact Perm.refl _
    · exact (ih.cons b).trans (Perm.swap up b rest)

theorem sorted_insertPages {up : Block} (hsorted : Sorted list) (hup : 0 < up.size)
    (hpos : ∀ b ∈ list, 0 < b.size)
    (hapart : ∀ b ∈ list, b.addr + b.size ≤ up.addr ∨ up.addr + up.size ≤ b.addr)
    (htouch : ∀ b ∈ list, b.addr ≠ up.addr + up.size) : Sorted (insertPages up list) := by
  induction list with
  | nil => exact pairwise_singleton _ _
  | cons b rest ih =>
    obtain ⟨hhead, htail⟩ := pairwise_cons.mp hsorted
    have hb := hapart b mem_cons_self
    have hne := htouch b mem_cons_self
    have hbpos := hpos b mem_cons_self
    rw [insertPages]
    split_ifs with hbehind
    · refine pairwise_cons.mpr ⟨fun c hc => ?_, hsorted⟩
      rcases mem_cons.mp hc with rfl | hc
      · lia
      · have hc := hhead c hc
        lia
    · refine pairwise_cons.mpr ⟨fun c hc => ?_,
        ih htail (fun c hc => hpos c (mem_cons_of_mem _ hc))
          (fun c hc => hapart c (mem_cons_of_mem _ hc))
          fun c hc => htouch c (mem_cons_of_mem _ hc)⟩
      rcases mem_cons.mp ((insertPages_perm up rest).mem_iff.mp hc) with rfl | hc
      · lia
      · exact hhead c hc

def KeepsPages (list : List Block) (n : Block) : Prop :=
  n.addr % pageUnits ≠ 0 ∧ ∀ b ∈ list, b.addr + b.size = n.addr → b.addr % pageUnits = 0 →
      b.size + n.size < pageUnits ∧
        ∀ c ∈ list, c.addr = n.addr + n.size → b.size + n.size + c.size < pageUnits

instance (list : List Block) (n : Block) : Decidable (KeepsPages list n) :=
  inferInstanceAs (Decidable (_ ∧ _))

structure Freed.Spec (f : Freed) (n : Block) (list : List Block) : Prop where
  pages : f.pages = none
  split : f.split = none
  cover : ∀ u, cover f.list u = cover (n :: list) u
  sorted : Sorted f.list
  positive : ∀ b ∈ f.list, 0 < b.size
  within : ∀ b ∈ f.list, n.addr ≤ b.addr ∨ ∃ c ∈ list, c.addr ≤ b.addr

theorem cover_join (addr k size : ℕ) (u : ℕ) :
    cover [⟨addr, k + size⟩] u = cover [⟨addr, k⟩] u + cover [⟨addr + k, size⟩] u := by
  have hcut := cover_cut addr k (k + size) (Nat.le_add_right _ _) u
  rwa [Nat.add_sub_cancel_left] at hcut

theorem wholePages_eq_zero {size : ℕ} (hsize : size < pageUnits) : wholePages size = 0 := by
  unfold pageUnits Slab.RT_MM_PAGE_SIZE at hsize
  unfold wholePages Word.mul32 Slab.RT_MM_PAGE_SIZE
  omega

theorem joinBelow_spec (hsorted : Sorted (b :: list)) (hb : 0 < b.size)
    (hpos : ∀ c ∈ list, 0 < c.size) (htouch : b.addr + b.size = n.addr)
    (hapart : ∀ c ∈ list, c.addr + c.size ≤ n.addr ∨ n.addr + n.size ≤ c.addr) :
    (joinBelow n b list).1.addr = b.addr ∧
      ((joinBelow n b list).1.size = b.size + n.size ∨ ∃ c ∈ list, c.addr = n.addr + n.size ∧
        (joinBelow n b list).1.size = b.size + n.size + c.size) ∧
      Sorted ((joinBelow n b list).1 :: (joinBelow n b list).2) ∧
      (∀ u, cover ((joinBelow n b list).1 :: (joinBelow n b list).2) u = cover (n :: b :: list) u) ∧
      ∀ c ∈ (joinBelow n b list).2, c ∈ list := by
  have hbn : ∀ u, cover [⟨b.addr, b.size + n.size⟩] u = cover [b] u + cover [n] u := by
    intro u
    rw [cover_join, htouch]
  obtain ⟨hhead, htail⟩ := pairwise_cons.mp hsorted
  cases list with
  | nil =>
    refine ⟨rfl, .inl rfl, pairwise_singleton _ _, fun u => ?_, fun c hc => hc⟩
    rw [cover_cons n]
    exact (hbn u).trans (Nat.add_comm _ _)
  | cons c rest =>
    rw [joinBelow]
    split_ifs with hnext
    · refine ⟨rfl, .inr ⟨c, mem_cons_self, by lia, by dsimp only; lia⟩, ?_,
        fun u => ?_, fun d hd => mem_cons_of_mem _ hd⟩
      · exact sorted_cons_of_end htail (by dsimp only; lia) (by dsimp only; lia)
      · have hjoin := cover_join b.addr (b.size + n.size) c.size u
        rw [hnext] at hjoin
        rw [cover_cons, show b.size + (c.size + n.size) = b.size + n.size + c.size by ring,
          hjoin, hbn, cover_cons n (b :: c :: rest), cover_cons b (c :: rest), cover_cons c rest]
        ring
    · refine ⟨rfl, .inl rfl, ?_, fun u => ?_, fun d hd => hd⟩
      · refine pairwise_cons.mpr ⟨fun d hd => ?_, htail⟩
        have hbd := hhead d hd
        have hnd := hapart d hd
        have hdpos := hpos d hd
        lia
      · rw [cover_cons, hbn, cover_cons n (b :: c :: rest), cover_cons b (c :: rest)]
        ring

theorem freeBelow_spec (hsorted : Sorted (b :: list)) (hb : 0 < b.size) (hn : 0 < n.size)
    (hpos : ∀ c ∈ list, 0 < c.size) (htouch : b.addr + b.size = n.addr)
    (hapart : ∀ c ∈ list, c.addr + c.size ≤ n.addr ∨ n.addr + n.size ≤ c.addr)
    (hkeeps : KeepsPages (b :: list) n) : (freeBelow n b list).Spec n (b :: list) := by
  obtain ⟨haddr, hsize, hsorted', hcover, hmem⟩ := joinBelow_spec hsorted hb hpos htouch hapart
  have hnone : ¬((joinBelow n b list).1.addr % pageUnits = 0 ∧
      0 < wholePages (joinBelow n b list).1.size) := by
    rintro ⟨haligned, hwhole⟩
    obtain ⟨hshort, hjoin⟩ := hkeeps.2 b mem_cons_self htouch (haddr ▸ haligned)
    have hless : (joinBelow n b list).1.size < pageUnits := by
      rcases hsize with hsize | ⟨c, hc, hca, hsize⟩
      · rwa [hsize]
      · rw [hsize]
        exact hjoin c (mem_cons_of_mem _ hc) hca
    rw [wholePages_eq_zero hless] at hwhole
    exact Nat.lt_irrefl 0 hwhole
  have hfreed : freeBelow n b list =
      ⟨(joinBelow n b list).1 :: (joinBelow n b list).2, none, none⟩ := if_neg hnone
  rw [hfreed]
  refine ⟨rfl, rfl, hcover, hsorted', fun c hc => ?_, fun c hc => .inr ?_⟩
  · rcases mem_cons.mp hc with rfl | hc
    · rcases hsize with hsize | ⟨d, -, -, hsize⟩ <;> omega
    · exact hpos c (hmem c hc)
  · rcases mem_cons.mp hc with rfl | hc
    · exact ⟨b, mem_cons_self, haddr.ge⟩
    · exact ⟨c, mem_cons_of_mem _ (hmem c hc), le_rfl⟩

theorem freeAbove_spec (hsorted : Sorted (b :: list)) (hb : 0 < b.size) (hn : 0 < n.size)
    (hpos : ∀ c ∈ list, 0 < c.size) (htouch : b.addr = n.addr + n.size)
    (hkeeps : KeepsPages (b :: list) n) : (freeAbove n b list).Spec n (b :: list) := by
  have hfreed : freeAbove n b list = ⟨⟨n.addr, b.size + n.size⟩ :: list, none, none⟩ :=
    if_neg hkeeps.1
  rw [hfreed]
  refine ⟨rfl, rfl, fun u => ?_, ?_, fun c hc => ?_, fun c hc => ?_⟩
  · rw [cover_cons, Nat.add_comm b.size, cover_join, ← htouch, cover_cons n (b :: list),
      cover_cons b list]
    ring
  · exact sorted_cons_of_end hsorted (by dsimp only; omega) (by dsimp only; omega)
  · rcases mem_cons.mp hc with rfl | hc
    · dsimp only
      omega
    · exact hpos c hc
  · rcases mem_cons.mp hc with rfl | hc
    · exact .inl le_rfl
    · exact .inr ⟨c, mem_cons_of_mem _ hc, le_rfl⟩

theorem freeAlone_spec (hsorted : Sorted list) (hn : 0 < n.size)
    (hpos : ∀ c ∈ list, 0 < c.size) (hbehind : ∀ c ∈ list, n.addr + n.size ≤ c.addr)
    (hkeeps : KeepsPages list n) : (freeAlone n list).Spec n list := by
  have hfreed : freeAlone n list = ⟨n :: list, none, none⟩ := if_neg hkeeps.1
  rw [hfreed]
  refine ⟨rfl, rfl, fun u => rfl, ?_, fun c hc => ?_, fun c hc => ?_⟩
  · refine pairwise_cons.mpr ⟨fun c hc => ?_, hsorted⟩
    have hc := hbehind c hc
    omega
  · rcases mem_cons.mp hc with rfl | hc
    · exact hn
    · exact hpos c hc
  · rcases mem_cons.mp hc with rfl | hc
    · exact .inl le_rfl
    · exact .inr ⟨c, hc, le_rfl⟩

theorem KeepsPages.tail (hkeeps : KeepsPages (b :: list) n) : KeepsPages list n :=
  ⟨hkeeps.1, fun c hc htouch haligned =>
    let ⟨hshort, hjoin⟩ := hkeeps.2 c (mem_cons_of_mem _ hc) htouch haligned
    ⟨hshort, fun d hd => hjoin d (mem_cons_of_mem _ hd)⟩⟩

theorem exists_freeWalk (hsorted : Sorted list) (hn : 0 < n.size) (hpos : ∀ c ∈ list, 0 < c.size)
    (hapart : ∀ c ∈ list, c.addr + c.size ≤ n.addr ∨ n.addr + n.size ≤ c.addr)
    (hkeeps : KeepsPages list n) : ∃ f, freeWalk n list = some f ∧ f.Spec n list := by
  induction list with
  | nil => exact ⟨_, rfl, freeAlone_spec hsorted hn hpos (by simp) hkeeps⟩
  | cons b rest ih =>
    obtain ⟨hhead, htail⟩ := pairwise_cons.mp hsorted
    have hb := hapart b mem_cons_self
    have hbpos := hpos b mem_cons_self
    have hposrest : ∀ c ∈ rest, 0 < c.size := fun c hc => hpos c (mem_cons_of_mem _ hc)
    have hapartrest : ∀ c ∈ rest, c.addr + c.size ≤ n.addr ∨ n.addr + n.size ≤ c.addr :=
      fun c hc => hapart c (mem_cons_of_mem _ hc)
    rw [freeWalk, if_neg (by lia)]
    split_ifs with hbelow habove hbehind
    · exact ⟨_, rfl, freeBelow_spec hsorted hbpos hn hposrest hbelow.1 hapartrest hkeeps⟩
    · exact ⟨_, rfl, freeAbove_spec hsorted hbpos hn hposrest habove hkeeps⟩
    · refine ⟨_, rfl, freeAlone_spec hsorted hn hpos (fun c hc => ?_) hkeeps⟩
      rcases mem_cons.mp hc with rfl | hc
      · lia
      · have hc := hhead c hc
        lia
    · obtain ⟨f, hwalk, hf⟩ := ih htail hposrest hapartrest hkeeps.tail
      rw [hwalk]
      refine ⟨_, rfl, hf.pages, hf.split, fun u => ?_, ?_, fun c hc => ?_, fun c hc => ?_⟩
      · have hcover := hf.cover u
        rw [cover_cons] at hcover
        rw [cover_cons, hcover, cover_cons n (b :: rest), cover_cons b rest]
        ring
      · refine pairwise_cons.mpr ⟨fun c hc => ?_, hf.sorted⟩
        rcases hf.within c hc with hle | ⟨d, hd, hle⟩
        · lia
        · have hbd := hhead d hd
          lia
      · rcases mem_cons.mp hc with rfl | hc
        · exact hbpos
        · exact hf.positive c hc
      · rcases mem_cons.mp hc with rfl | hc
        · exact .inr ⟨c, mem_cons_self, le_rfl⟩
        · rcases hf.within c hc with hle | ⟨d, hd, hle⟩
          · exact .inl hle
          · exact .inr ⟨d, mem_cons_of_mem _ hd, hle⟩

end RtThread.ModuleHeap
