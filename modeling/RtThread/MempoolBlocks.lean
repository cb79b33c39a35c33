import RtThread.MempoolWaiters

/-!
# The blocks of a memory pool

The free list and the blocks handed out are a partition of the pool.  A thread
resumed by `rt_mp_free` is owed a block; it takes one without looking at the free
list again, so its block must not be given to another caller in between.
-/

namespace RtThread.MemPool

open Function List Option Word

variable {a : AlignSize}

namespace PoolArea

variable (area : PoolArea a)

def stride : ℕ := rtAlign a area.blockSize + 4

def total : ℕ := rtAlignDown a area.size / area.stride

def blocks : List ℕ := (List.range area.total).map fun k => area.start + k * area.stride

theorem stride_eq : add32 (rtAlign a area.blockSize) 4 = area.stride := by
  have hfits := area.fits
  have hpos := area.start_pos
  have hnonempty := area.nonempty
  have hsize := rtAlignDown_le a (by omega : area.size < 4294967296)
  exact add32_eq_of_lt (by omega)

theorem total_pos : 0 < area.total :=
  Nat.div_pos area.nonempty (Nat.succ_pos _)

theorem block_le {k : ℕ} (hk : k ≤ area.total) :
    area.start + k * area.stride ≤ area.start + area.size := by
  have hfits := area.fits
  have hpos := area.start_pos
  have hsize := rtAlignDown_le a (by omega : area.size < 4294967296)
  have hmul : k * area.stride ≤ rtAlignDown a area.size :=
    calc
      k * area.stride ≤ area.total * area.stride := Nat.mul_le_mul_right _ hk
      _ ≤ rtAlignDown a area.size := Nat.div_mul_le_self _ _
  omega

theorem blockAt_eq {k : ℕ} (hk : k < area.total) :
    blockAt area.start area.stride k = area.start + k * area.stride := by
  have hfits := area.fits
  have hstride : 0 < area.stride := Nat.succ_pos _
  have hnext := area.block_le (Nat.succ_le_of_lt hk)
  rw [Nat.succ_mul] at hnext
  unfold blockAt
  rw [mul32_eq_of_lt (by omega), add32_eq_of_lt (by omega)]

theorem total_lt : area.total < 4294967296 := by
  have hfits := area.fits
  have hpos := area.start_pos
  have hsize := rtAlignDown_le a (by omega : area.size < 4294967296)
  have hle : area.total ≤ rtAlignDown a area.size := Nat.div_le_self _ _
  omega

theorem blocks_length : area.blocks.length = area.total := by
  simp [blocks]

theorem blocks_nodup : area.blocks.Nodup := by
  apply nodup_range.map
  intro k l hkl
  simp only at hkl
  have hstride : 0 < area.stride := Nat.succ_pos _
  exact Nat.eq_of_mul_eq_mul_right hstride (by omega)

theorem block_pos {b : ℕ} (hb : b ∈ area.blocks) : b ≠ rtNull := by
  have hpos := area.start_pos
  rcases mem_map.mp hb with ⟨k, -, rfl⟩
  unfold rtNull
  omega

end PoolArea

theorem linkedTo_range {header : ℕ → ℕ} {addr : ℕ → ℕ} {k n : ℕ}
    (hnext : ∀ i, i + 1 < n → header (addr i) = addr (i + 1))
    (hlast : header (addr (n - 1)) = rtNull) (hnull : ∀ i, i < n → addr i ≠ rtNull) (hk : k < n) :
    LinkedTo header rtNull (addr k) ((List.range' k (n - k)).map addr) := by
  induction hm : n - k generalizing k with
  | zero => lia
  | succ m ih =>
    rw [range'_succ, map_cons]
    refine ⟨rfl, hnull k hk, ?_⟩
    by_cases hend : k + 1 < n
    · rw [hnext k hend]
      exact ih hend (by lia)
    · have hk' : k = n - 1 := by lia
      have hm' : m = 0 := by lia
      rw [hk', hlast, hm']
      rfl

theorem foldl_update_of_injective {header : ℕ → ℕ} {addr value : ℕ → ℕ} {n i : ℕ}
    (hinj : ∀ i j, i < n → j < n → addr i = addr j → i = j) (hi : i < n) :
    (List.range n).foldl (fun h k => update h (addr k) (value k)) header (addr i) =
      value i := by
  induction n with
  | zero => lia
  | succ n ih =>
    rw [range_succ, foldl_append, foldl_cons, foldl_nil]
    by_cases hin : i = n
    · rw [hin, update_self]
    · have hne : addr i ≠ addr n := fun heq => hin (hinj i n hi (by lia) heq)
      rw [update_of_ne hne]
      exact ih (fun j k hj hk => hinj j k (by lia) (by lia)) (by lia)

variable {area : PoolArea a} {s s' : State} {t u : Thread} {free : List ℕ} {b : ℕ}

structure Blocks (area : PoolArea a) (s : State) (free : List ℕ) : Prop where
  linked : LinkedTo s.header rtNull s.mp.blockList free
  count_eq : s.mp.blockFreeCount = free.length
  total_eq : s.mp.blockTotalCount = area.total
  perm : (free ++ s.held).Perm area.blocks
  header_eq : ∀ b ∈ s.held, s.header b = area.mp

namespace Blocks

theorem of_init (hinit : (poolSystem area).init s) : Blocks area s area.blocks := by
  rcases hinit with ⟨⟨header, hpool⟩, -, hheld, -, -⟩
  rw [Prod.ext_iff] at hpool
  rcases hpool with ⟨hheader, hmp⟩
  simp only [rtMpInit, area.stride_eq] at hheader hmp
  have htotal : rtAlignDown a area.size / area.stride = area.total := rfl
  rw [htotal] at hheader hmp
  have hpos := area.total_pos
  have hinj : ∀ i j, i < area.total → j < area.total →
      blockAt area.start area.stride i = blockAt area.start area.stride j → i = j := by
    intro i j hi hj hij
    have hstride : 0 < area.stride := Nat.succ_pos _
    rw [area.blockAt_eq hi, area.blockAt_eq hj] at hij
    exact Nat.eq_of_mul_eq_mul_right hstride (by lia)
  have hnull : ∀ i, i < area.total → blockAt area.start area.stride i ≠ rtNull := by
    intro i hi
    have hstart := area.start_pos
    rw [area.blockAt_eq hi]
    unfold rtNull
    lia
  have hlast : s.header (blockAt area.start area.stride (area.total - 1)) = rtNull := by
    rw [hheader, update_self]
  have hnext : ∀ i, i + 1 < area.total → s.header (blockAt area.start area.stride i) =
        blockAt area.start area.stride (i + 1) := by
    intro i hi
    have hne : blockAt area.start area.stride i ≠
        blockAt area.start area.stride (area.total - 1) := by
      intro heq
      have := hinj i (area.total - 1) (by lia) (by lia) heq
      lia
    rw [hheader, update_of_ne hne]
    exact foldl_update_of_injective hinj (by lia)
  have hblocks : (List.range' 0 (area.total - 0)).map (blockAt area.start area.stride) =
      area.blocks := by
    rw [Nat.sub_zero, ← range_eq_range']
    apply map_congr_left
    intro i hi
    exact area.blockAt_eq (mem_range.mp hi)
  have hfirst : blockAt area.start area.stride 0 = area.start := by
    rw [area.blockAt_eq hpos]
    lia
  constructor
  · have hlinked := linkedTo_range hnext hlast hnull hpos
    rw [hblocks, hfirst] at hlinked
    rw [hmp]
    exact hlinked
  · rw [hmp, area.blocks_length]
  · rw [hmp]
  · rw [hheld, append_nil]
  · rw [hheld]
    simp

section

variable (hblocks : Blocks area s free)
include hblocks

theorem congr (hheader : s'.header = s.header)
    (hlist : s'.mp.blockList = s.mp.blockList) (hcount : s'.mp.blockFreeCount = s.mp.blockFreeCount)
    (htotal : s'.mp.blockTotalCount = s.mp.blockTotalCount) (hheld : s'.held = s.held) :
    Blocks area s' free := by
  constructor
  · rw [hheader, hlist]
    exact hblocks.linked
  · rw [hcount]
    exact hblocks.count_eq
  · rw [htotal]
    exact hblocks.total_eq
  · rw [hheld]
    exact hblocks.perm
  · rw [hheader, hheld]
    exact hblocks.header_eq

theorem nodup : (free ++ s.held).Nodup :=
  hblocks.perm.nodup_iff.mpr area.blocks_nodup

theorem length_eq : free.length + s.held.length = area.total := by
  have hlength := hblocks.perm.length_eq
  rw [length_append, area.blocks_length] at hlength
  exact hlength

theorem takeBlock (hpos : 0 < s.mp.blockFreeCount) :
    ∃ rest, Blocks area (takeBlock area.mp s) rest ∧ free.length = rest.length + 1 := by
  have hnodup := hblocks.nodup
  have hperm := hblocks.perm
  have hcount := hblocks.count_eq
  have hlinked := hblocks.linked
  cases free with
  | nil =>
    rw [hcount] at hpos
    exact absurd hpos (by simp)
  | cons b rest =>
    rcases hlinked with ⟨hb, -, hrest⟩
    rw [cons_append, nodup_cons, mem_append, not_or] at hnodup
    refine ⟨rest, ⟨?_, ?_, hblocks.total_eq, ?_, ?_⟩, rfl⟩
    · change LinkedTo (update s.header s.mp.blockList area.mp) rtNull
        (s.header s.mp.blockList) rest
      rw [hb]
      apply hrest.congr
      intro x hx
      have hne : x ≠ b := fun heq => hnodup.1.1 (heq ▸ hx)
      exact update_of_ne hne _ _
    · change pred32 s.mp.blockFreeCount = rest.length
      rw [pred32_eq_of_pos hpos, hcount]
      rfl
    · change (rest ++ s.mp.blockList :: s.held).Perm area.blocks
      rw [hb]
      exact perm_middle.trans hperm
    · intro x hx
      change update s.header s.mp.blockList area.mp x = area.mp
      rw [hb]
      by_cases hxb : x = b
      · rw [hxb, update_self]
      · rw [update_of_ne hxb]
        apply hblocks.header_eq
        change x ∈ s.mp.blockList :: s.held at hx
        rw [hb, mem_cons] at hx
        exact hx.resolve_left hxb

theorem putBlock (hb : b ∈ s.held) : Blocks area (putBlock s b) (b :: free) := by
  have hnodup := hblocks.nodup
  have hlength := hblocks.length_eq
  have htotal := area.total_lt
  have hheld := length_pos_of_mem hb
  rw [nodup_append] at hnodup
  have hfresh : b ∉ free := fun hmem => hnodup.2.2 b hmem b hb rfl
  have hmember : b ∈ area.blocks := hblocks.perm.mem_iff.mp (mem_append_right _ hb)
  constructor
  · refine ⟨rfl, area.block_pos hmember, ?_⟩
    change LinkedTo (update s.header b s.mp.blockList) rtNull
      (update s.header b s.mp.blockList b) free
    rw [update_self]
    apply hblocks.linked.congr
    intro x hx
    have hne : x ≠ b := fun heq => hfresh (heq ▸ hx)
    exact update_of_ne hne _ _
  · change add32 s.mp.blockFreeCount 1 = free.length + 1
    rw [hblocks.count_eq]
    exact add32_eq_of_lt (by omega)
  · exact hblocks.total_eq
  · change (b :: free ++ s.held.erase b).Perm area.blocks
    have hswap : (b :: free ++ s.held.erase b).Perm (free ++ b :: s.held.erase b) :=
      perm_middle.symm
    have hback : (free ++ b :: s.held.erase b).Perm (free ++ s.held) :=
      (perm_cons_erase hb).symm.append_left free
    exact (hswap.trans hback).trans hblocks.perm
  · intro x hx
    have hxb : x ≠ b := by
      intro heq
      rw [heq] at hx
      exact hnodup.2.1.not_mem_erase hx
    change update s.header b s.mp.blockList x = area.mp
    rw [update_of_ne hxb]
    exact hblocks.header_eq x (mem_of_mem_erase hx)

end

end Blocks

def Promised (b : ThreadBlock) : Prop :=
  b.point = .granted ∨ (b.point = .scheduled ∧ b.stat = .ready ∧ b.error = .eok)

/-- The threads which were promised a block are fewer than the free blocks. -/
structure OwedInv (s : State) : Prop where
  nodup : s.owed.Nodup
  mem_iff : ∀ t, t ∈ s.owed ↔ Promised (s.threads t)
  length_le : s.owed.length ≤ s.mp.blockFreeCount

def Action.LeavesOwed (s : State) : Action → Prop
  | .alloc _ _ => s.mp.blockFreeCount = 0 ∨ s.owed.length < s.mp.blockFreeCount
  | .free _ => s.mp.suspendThreadCount = 0 ∨ s.mp.suspendThread ≠ []
  | .detachResume => s.mp.suspendThread ≠ []
  | _ => True

theorem not_promised_of_suspend (hwaiting : Waiting s) (hstat : (s.threads t).stat = .suspend) :
    ¬Promised (s.threads t) := by
  rintro (hpoint | ⟨-, hready, -⟩)
  · rw [hwaiting.scheduled t hstat] at hpoint
    exact absurd hpoint (by decide)
  · rw [hstat] at hready
    exact absurd hready (by decide)

namespace OwedInv

section

variable (howed : OwedInv s)
include howed

theorem of_update (hother : ∀ u, u ≠ t → s'.threads u = s.threads u)
    (hlist : s'.owed = s.owed) (hself : Promised (s'.threads t) ↔ Promised (s.threads t))
    (hle : s.owed.length ≤ s'.mp.blockFreeCount) : OwedInv s' := by
  constructor
  · rw [hlist]
    exact howed.nodup
  · intro u
    rw [hlist, howed.mem_iff u]
    by_cases hut : u = t
    · rw [hut]
      exact hself.symm
    · rw [hother u hut]
  · rw [hlist]
    exact hle

theorem of_threads (hthreads : s'.threads = s.threads)
    (hlist : s'.owed = s.owed) (hle : s.owed.length ≤ s'.mp.blockFreeCount) : OwedInv s' := by
  constructor
  · rw [hlist]
    exact howed.nodup
  · intro u
    rw [hlist, hthreads]
    exact howed.mem_iff u
  · rw [hlist]
    exact hle

theorem waitForBlock (hpoint : (s.threads t).point = .outside) (time : ℤ) :
    OwedInv (waitForBlock s t time) := by
  apply howed.of_update (t := t)
  · intro u hut
    simp [MemPool.waitForBlock, State.setThread, hut]
  · rfl
  · simp [MemPool.waitForBlock, State.setThread, Promised, hpoint]
  · exact howed.length_le

theorem woken {code : ErrorCode} (hwaiting : Waiting s)
    (hstat : (s.threads t).stat = .suspend) (hcode : code ≠ .eok) : OwedInv (woken s t code) := by
  apply howed.of_update (t := t)
  · exact fun u hut => woken_of_ne hut
  · rfl
  · rw [woken_self]
    simp [Promised, hwaiting.scheduled t hstat, hstat, hcode]
  · exact howed.length_le

theorem woken_eok {s' : State} (hwaiting : Waiting s)
    (hstat : (s.threads t).stat = .suspend) (hroom : s.owed.length < s.mp.blockFreeCount)
    (hthreads : s'.threads = (MemPool.woken s t .eok).threads) (hlist : s'.owed = t :: s.owed)
    (hcount : s'.mp.blockFreeCount = s.mp.blockFreeCount) : OwedInv s' := by
  have hnot : t ∉ s.owed := by
    rw [howed.mem_iff]
    exact not_promised_of_suspend hwaiting hstat
  constructor
  · rw [hlist]
    exact nodup_cons.mpr ⟨hnot, howed.nodup⟩
  · intro u
    rw [hlist, hthreads, mem_cons, howed.mem_iff u]
    by_cases hut : u = t
    · rw [hut, woken_self]
      simp [Promised, hwaiting.scheduled t hstat]
    · rw [woken_of_ne hut]
      simp [hut]
  · rw [hlist, hcount]
    exact hroom

theorem taken {mp : ℕ} (hpoint : (s.threads t).point = .granted) :
    OwedInv { setPoint (MemPool.takeBlock mp s) t .outside with owed := s.owed.erase t } := by
  have hmem : t ∈ s.owed := (howed.mem_iff t).mpr (.inl hpoint)
  have hle := howed.length_le
  have hpos := length_pos_of_mem hmem
  constructor
  · exact howed.nodup.erase t
  · intro u
    change u ∈ s.owed.erase t ↔ _
    rw [howed.nodup.mem_erase_iff, howed.mem_iff u]
    by_cases hut : u = t
    · simp [hut, setPoint, State.setThread, Promised]
    · simp [hut, setPoint, State.setThread, takeBlock]
  · change (s.owed.erase t).length ≤ pred32 s.mp.blockFreeCount
    rw [length_erase_of_mem hmem, pred32_eq_of_pos (by omega)]
    omega

theorem checkError (hready : (s.threads t).stat = .ready)
    (hpoint : (s.threads t).point = .scheduled) : OwedInv (setPoint s t
      (if (s.threads t).error = .eok then .granted else .outside)) := by
  apply howed.of_update (t := t)
  · intro u hut
    simp [setPoint, State.setThread, hut]
  · rfl
  · by_cases hcode : (s.threads t).error = .eok
    · simp [setPoint, State.setThread, Promised, hcode, hready, hpoint]
    · simp [setPoint, State.setThread, Promised, hcode, hpoint]
  · exact howed.length_le

end

end OwedInv

/-- What every reachable state of the pool keeps. -/
structure PoolInv (area : PoolArea a) (s : State) : Prop where
  waiting : Waiting s
  blocks : ∃ free, Blocks area s free
  owed : OwedInv s

theorem PoolInv.takeBlock (hinv : PoolInv area s) (hroom : s.owed.length < s.mp.blockFreeCount) :
    PoolInv area (takeBlock area.mp s) := by
  rcases hinv.blocks with ⟨free, hblocks⟩
  rcases hblocks.takeBlock (by omega) with ⟨rest, hrest, -⟩
  have hle : s.owed.length ≤ (MemPool.takeBlock area.mp s).mp.blockFreeCount := by
    change s.owed.length ≤ pred32 s.mp.blockFreeCount
    rw [pred32_eq_of_pos (by omega)]
    omega
  exact ⟨hinv.waiting.takeBlock area.mp, ⟨rest, hrest⟩, hinv.owed.of_threads rfl rfl hle⟩

theorem PoolInv.rtMpFree (hinv : PoolInv area s) (hb : b ∈ s.held)
    (hfree : rtMpFree s b = some s') : PoolInv area s' := by
  have hwaiting := hinv.waiting.putBlock b
  rcases hinv.blocks with ⟨free, hblocks⟩
  have hput := hblocks.putBlock hb
  have hlength := hinv.owed.length_le
  rw [hblocks.count_eq] at hlength
  have hroom : s.owed.length < (putBlock s b).mp.blockFreeCount := by
    rw [hput.count_eq, length_cons]
    omega
  have howed : OwedInv (putBlock s b) := hinv.owed.of_threads rfl rfl (by omega)
  refine ⟨hinv.waiting.rtMpFree hfree, ⟨b :: free, ?_⟩, ?_⟩
  · rcases rtMpFree_cases hfree with ⟨-, rfl⟩ | ⟨result, hresume, rfl⟩
    · exact hput
    · cases hlist : (putBlock s b).mp.suspendThread with
      | nil =>
        rw [resumeFirst_nil hlist] at hresume
        exact absurd hresume (by simp)
      | cons t rest =>
        rw [hwaiting.resumeFirst_cons hlist] at hresume
        rw [← some.inj hresume]
        exact hput.congr rfl rfl rfl rfl rfl
  · rcases rtMpFree_cases hfree with ⟨-, rfl⟩ | ⟨result, hresume, rfl⟩
    · exact howed
    · cases hlist : (putBlock s b).mp.suspendThread with
      | nil =>
        rw [resumeFirst_nil hlist] at hresume
        exact absurd hresume (by simp)
      | cons t rest =>
        have hstat : ((putBlock s b).threads t).stat = .suspend := by
          rw [← hwaiting.mem_iff, hlist]
          exact mem_cons_self
        rw [hwaiting.resumeFirst_cons hlist] at hresume
        rw [← some.inj hresume]
        exact howed.woken_eok hwaiting hstat hroom rfl rfl rfl

/-- One case for each section, where nobody takes a block owed to another thread. -/
theorem PoolInv.execute {action : Action} (hinv : PoolInv area s) (hleaves : action.LeavesOwed s)
    (henabled : action.Enabled area.mp s) (hexecute : execute area.mp s action = some s') :
    PoolInv area s' := by
  have hwaiting := hinv.waiting.execute henabled hexecute
  rcases hinv.blocks with ⟨free, hblocks⟩
  cases action with
  | alloc caller time =>
    rcases rtMpAlloc_cases hexecute with ⟨hpos, rfl⟩ | ⟨-, rfl⟩ | ⟨t, rfl, -, rfl⟩
    · exact hinv.takeBlock (hleaves.resolve_left hpos)
    · exact hinv
    · exact ⟨hwaiting, ⟨free, hblocks.congr rfl rfl rfl rfl rfl⟩,
        hinv.owed.waitForBlock henabled.2 time⟩
  | checkError t =>
    have howed := hinv.owed.checkError henabled.1 henabled.2
    rw [← some.inj hexecute] at hwaiting ⊢
    exact ⟨hwaiting, ⟨free, hblocks.congr rfl rfl rfl rfl rfl⟩, howed⟩
  | takeGranted t =>
    have hmem : t ∈ s.owed := (hinv.owed.mem_iff t).mpr (.inl henabled)
    have hpos := length_pos_of_mem hmem
    have hle := hinv.owed.length_le
    rcases hblocks.takeBlock (by omega) with ⟨rest, hrest, -⟩
    rw [← some.inj hexecute] at hwaiting ⊢
    exact ⟨hwaiting, ⟨rest, hrest.congr rfl rfl rfl rfl rfl⟩, hinv.owed.taken (t := t) henabled⟩
  | free blockPtr => exact hinv.rtMpFree henabled.1 hexecute
  | timeout t =>
    have hstat := hinv.waiting.timer t henabled
    have howed := hinv.owed.woken hinv.waiting hstat (by decide : ErrorCode.etimeout ≠ .eok)
    rw [← some.inj hexecute, rtThreadTimeout_eq] at hwaiting ⊢
    exact ⟨hwaiting, ⟨free, hblocks.congr rfl rfl rfl rfl rfl⟩, howed⟩
  | detachTest =>
    rw [← some.inj hexecute] at hwaiting ⊢
    exact ⟨hwaiting, ⟨free, hblocks.congr rfl rfl rfl rfl rfl⟩,
      hinv.owed.of_threads rfl rfl hinv.owed.length_le⟩
  | detachResume =>
    rcases map_eq_some_iff.mp hexecute with ⟨result, hresume, rfl⟩
    rcases exists_cons_of_ne_nil hleaves with ⟨t, rest, hlist⟩
    have hstat : (s.threads t).stat = .suspend := by
      rw [← hinv.waiting.mem_iff, hlist]
      exact mem_cons_self
    have howed := hinv.owed.woken hinv.waiting hstat (by decide : ErrorCode.error ≠ .eok)
    rw [hinv.waiting.resumeFirst_cons hlist] at hresume
    rw [← some.inj hresume] at hwaiting ⊢
    exact ⟨hwaiting, ⟨free, hblocks.congr rfl rfl rfl rfl rfl⟩,
      howed.of_threads rfl rfl howed.length_le⟩

/-- The counters, the free list and the blocks handed out agree, and a thread
resumed by `rt_mp_free` finds a block. -/
structure BlocksIntact (area : PoolArea a) (s : State) (free : List ℕ) : Prop where
  linked : LinkedTo s.header rtNull s.mp.blockList free
  freeCount_eq : s.mp.blockFreeCount = free.length
  freeCount_le : s.mp.blockFreeCount ≤ s.mp.blockTotalCount
  partition : (free ++ s.held).Perm area.blocks
  disjoint : (free ++ s.held).Nodup
  resumed_finds_block : ∀ t, Promised (s.threads t) → s.mp.blockList ≠ rtNull

theorem PoolInv.blocksIntact (hinv : PoolInv area s) : ∃ free, BlocksIntact area s free := by
  rcases hinv.blocks with ⟨free, hblocks⟩
  have hlength := hblocks.length_eq
  refine ⟨free, hblocks.linked, hblocks.count_eq, ?_, hblocks.perm, hblocks.nodup, ?_⟩
  · rw [hblocks.count_eq, hblocks.total_eq]
    omega
  · intro t hpromised hnull
    have hmem := (hinv.owed.mem_iff t).mpr hpromised
    have hpos := length_pos_of_mem hmem
    have hle := hinv.owed.length_le
    rw [hblocks.linked.eq_nil_iff] at hnull
    rw [hblocks.count_eq, hnull] at hle
    simp only [length_nil] at hle
    omega

theorem PoolInv.of_init (hinit : (poolSystem area).init s) : PoolInv area s := by
  refine ⟨(Waiting.of_init hinit).1, ⟨_, Blocks.of_init hinit⟩, ?_⟩
  rcases hinit with ⟨-, hthreads, -, howed, -⟩
  constructor
  · rw [howed]
    exact nodup_nil
  · intro t
    rcases hthreads t with ⟨-, hpoint, -⟩
    simp [howed, Promised, hpoint]
  · rw [howed]
    exact Nat.zero_le _

/-- In every run in which callers leave the blocks owed to resumed threads and
the list head is never taken for a thread, the pool is intact. -/
theorem blocksIntact_of_reachable (area : PoolArea a)
    (hreach : (poolSystem area).Reachable (fun s action => action.LeavesOwed s) s) :
    ∃ free, BlocksIntact area s free := by
  have hinv : PoolInv area s := by
    apply hreach.invariant (P := fun s => PoolInv area s)
    · exact fun s hinit => PoolInv.of_init hinit
    · rintro s action s' hinv hleaves ⟨henabled, hexecute⟩
      exact hinv.execute hleaves henabled hexecute
  exact hinv.blocksIntact

instance (s : State) (action : Action) : Decidable (action.LeavesOwed s) :=
  match action with
  | .alloc _ _ => inferInstanceAs (Decidable (_ ∨ _))
  | .free _ => inferInstanceAs (Decidable (_ ∨ _))
  | .detachResume => inferInstanceAs (Decidable (_ ≠ _))
  | .checkError _ => isTrue trivial
  | .takeGranted _ => isTrue trivial
  | .timeout _ => isTrue trivial
  | .detachTest => isTrue trivial

theorem blocksIntact_of_sample_actions :
    ∃ s, (poolSystem sampleArea).Reachable (fun s action => action.LeavesOwed s) s ∧
      s.held = [0x20000000] ∧ ∃ free, BlocksIntact sampleArea s free := by
  have hrun : (sampleRun (fun s action => action.LeavesOwed s)
      [.alloc (some firstThread) 0, .alloc (some secondThread) (-1),
        .alloc (some thirdThread) 10, .timeout thirdThread, .free 0x20000000,
        .checkError thirdThread, .checkError secondThread, .takeGranted secondThread]).map
        (fun s => s.held) = some [0x20000000] := by decide +kernel
  rcases map_eq_some_iff.mp hrun with ⟨s, hs, hheld⟩
  have hreach := reachable_sampleRun hs
  exact ⟨s, hreach, hheld, blocksIntact_of_reachable sampleArea hreach⟩

/-- The block of a resumed thread is taken by a third one; the resumed thread
then counts the free blocks down from zero. -/
theorem not_blocksIntact_of_taken_block :
    ∃ s, (poolSystem sampleArea).Reachable (fun _ _ => True) s ∧
      ¬∃ free, BlocksIntact sampleArea s free := by
  have hrun : (sampleRun (fun _ _ => True)
      [.alloc (some firstThread) 0, .alloc (some secondThread) (-1), .free 0x20000000,
        .alloc (some thirdThread) 0, .checkError secondThread,
        .takeGranted secondThread]).map
        (fun s => (s.mp.blockFreeCount, s.mp.blockTotalCount)) = some (4294967295, 1) := by
    decide +kernel
  rcases map_eq_some_iff.mp hrun with ⟨s, hs, hfields⟩
  refine ⟨s, reachable_sampleRun hs, ?_⟩
  rintro ⟨free, hintact⟩
  have hle := hintact.freeCount_le
  rw [Prod.mk.injEq] at hfields
  rw [hfields.1, hfields.2] at hle
  exact absurd hle (by decide)

end RtThread.MemPool
