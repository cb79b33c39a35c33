import RtThread.SlabZones
import RtThread.SlabLock

/-!
# Live blocks of the slab heap

A live block is a chunk that its zone does not list as free, or the first page of a run
which `memusage` records with its length.  The calls keep the other live blocks, and in a run
every live block is found again through `memusage`.
-/

namespace RtThread.Slab

open Function List Option Word SlabHeap Nat

/-- A block handed out: a used chunk or a large run. -/
inductive Alive (h : SlabHeap) (others : List RtPageHead) : Block → Prop where
  | chunk {z i size : ℕ} {zone : SlabZone} (hzone : h.zones z = some zone) (hi : i ≤ zone.zUindex)
      (hused : zone.chunk i ∉ zone.zFreechunk) (hsize : size ≤ zone.zChunksize) :
      Alive h others ⟨zone.chunk i, size⟩
  | pages {run : RtPageHead} {size : ℕ}
      (hrun : run ∈ others) (husage : h.memusage run.start = ⟨.large, run.page⟩)
      (hsize : size ≤ run.page * RT_MM_PAGE_SIZE) :
      Alive h others ⟨run.start * RT_MM_PAGE_SIZE, size⟩

/-- An allocation keeps what is alive and gives out a fresh block. -/
structure Serves (start len : ℕ) (h : SlabHeap) (others : List RtPageHead) (size : ℕ)
    (result : SlabHeap × Option ℕ) (zs' : List ℕ) (others' : List RtPageHead) : Prop where
  heap : HeapInv start len result.1 zs' others'
  kept : ∀ b, Alive h others b → Alive result.1 others' b
  alive : ∀ p ∈ result.2, Alive result.1 others' ⟨p, size⟩
  fresh : ∀ p ∈ result.2, ∀ b, Alive h others b → b.ptr ≠ p

variable {start len : ℕ} {h h' : SlabHeap} {zs : List ℕ} {others others' : List RtPageHead}
  {z y zi i j p size n npages ptr : ℕ} {zone zone' : SlabZone} {run : RtPageHead}
  {rest : List ℕ} {b : Block}

namespace Alive

theorem mono {size' : ℕ} (halive : Alive h others ⟨p, size⟩) (hle : size' ≤ size) :
    Alive h others ⟨p, size'⟩ := by
  cases halive with
  | chunk hzone hi hused hsize => exact .chunk hzone hi hused (hle.trans hsize)
  | pages hrun husage hsize => exact .pages hrun husage (hle.trans hsize)

theorem congr (halive : Alive h others b) (hzones : h'.zones = h.zones)
    (husage : h'.memusage = h.memusage) : Alive h' others b := by
  cases halive with
  | chunk hzone hi hused hsize => exact .chunk (hzones ▸ hzone) hi hused hsize
  | pages hrun hlarge hsize => exact .pages hrun (husage ▸ hlarge) hsize

end Alive

namespace HeapInv

section

variable (hinv : HeapInv start len h zs others)
include hinv

section

variable (hzone : h.zones z = some zone)
include hzone

theorem chunk_page
    (hi : i < zone.zNmax) : (z ≤ zone.chunk i / RT_MM_PAGE_SIZE ∧
      zone.chunk i / RT_MM_PAGE_SIZE < z + h.zonePageCnt) ∧
      h.memusage (zone.chunk i / RT_MM_PAGE_SIZE) =
        ⟨.small, zone.chunk i / RT_MM_PAGE_SIZE - z⟩ := by
  have hok := hinv.ok z zone hzone
  have hinside := hok.chunk_inside hi
  have hpos := hok.chunksize_pos
  rw [hinv.config.zoneSize_eq] at hinside
  simp only [RT_MM_PAGE_SIZE, sizeofSlabZone] at hinside ⊢
  have hpage : z ≤ zone.chunk i / 4096 ∧ zone.chunk i / 4096 < z + h.zonePageCnt := by lia
  have husage := hinv.usage z ((hinv.zone z).mpr ⟨zone, hzone⟩) (zone.chunk i / 4096 - z) (by lia)
  rw [Nat.add_sub_cancel' hpage.1] at husage
  exact ⟨hpage, husage⟩

theorem chunk_inj (hzone' : h.zones y = some zone')
    (hi : i < zone.zNmax) (hj : j < zone'.zNmax)
    (heq : zone.chunk i = zone'.chunk j) : z = y ∧ zone = zone' ∧ i = j := by
  obtain ⟨hpage, -⟩ := hinv.chunk_page hzone hi
  obtain ⟨hpage', -⟩ := hinv.chunk_page hzone' hj
  rw [← heq] at hpage'
  have hzy : z = y := hinv.zone_eq ((hinv.zone z).mpr ⟨zone, hzone⟩)
    ((hinv.zone y).mpr ⟨zone', hzone'⟩) hpage hpage'
  subst hzy
  rw [hzone] at hzone'
  obtain rfl := some.inj hzone'
  exact ⟨rfl, rfl, (hinv.ok z zone hzone).chunk_inj heq⟩

theorem chunk_ne_page (hi : i < zone.zNmax)
    (hlarge : (h.memusage p).type = .large) : zone.chunk i ≠ p * RT_MM_PAGE_SIZE := by
  intro heq
  obtain ⟨-, husage⟩ := hinv.chunk_page hzone hi
  rw [heq, Nat.mul_div_cancel p (by decide)] at husage
  rw [husage] at hlarge
  cases hlarge

theorem ne_of_not_used
    (hi : i < zone.zNmax) (hfree : zone.zUindex < i ∨ zone.chunk i ∈ zone.zFreechunk)
    (halive : Alive h others b) : b.ptr ≠ zone.chunk i := by
  intro heq
  cases halive with
  | chunk hzone' hj hused hsize =>
    have hcut := lt_of_le_of_lt hj (hinv.ok _ _ hzone').uindex_lt
    obtain ⟨rfl, rfl, rfl⟩ := hinv.chunk_inj hzone' hzone hcut hi heq
    obtain hmore | hmem := hfree
    · exact absurd hj (not_le.mpr hmore)
    · exact hused hmem
  | pages hrun husage hsize =>
    exact hinv.chunk_ne_page hzone hi (husage ▸ rfl) heq.symm

end

end

theorem alive_setZone (hzone : h.zones z = some zone)
    (hchunk : ∀ i ≤ zone.zUindex, zone.chunk i ∉ zone.zFreechunk → b.ptr = zone.chunk i →
      i ≤ zone'.zUindex ∧ zone'.chunk i = zone.chunk i ∧ zone.chunk i ∉ zone'.zFreechunk ∧
        zone'.zChunksize = zone.zChunksize)
    (halive : Alive h others b) : Alive (h.setZone z zone') others b := by
  cases halive with
  | @chunk y i size record hrecord hi hused hle =>
    by_cases hy : y = z
    · subst hy
      rw [hzone] at hrecord
      obtain rfl := some.inj hrecord
      obtain ⟨hi', heq, hused', hsize⟩ := hchunk i hi hused rfl
      rw [← heq]
      exact .chunk (update_self _ _ _) hi' (heq ▸ hused') (hsize ▸ hle)
    · exact .chunk ((update_of_ne hy _ _).trans hrecord) hi hused hle
  | pages hrun husage hle => exact .pages hrun husage hle

theorem takeChunk (hinv : HeapInv start len h zs others) (hzone : h.zones z = some zone)
    (hok : ZoneOk h.zoneSize z zone') (hindex : zone'.zZoneindex = zone.zZoneindex)
    (harray : h.zoneArray zone.zZoneindex = z :: rest) (hnfree : zone'.zNfree = zone.zNfree - 1) :
    HeapInv start len ((if zone.zNfree - 1 = 0 then h.setArray zone.zZoneindex rest
      else h).setZone z zone') zs others := by
  have hmem : z ∈ h.zoneArray zone.zZoneindex := harray ▸ mem_cons_self
  have hpos := ((hinv.linked z zone hzone).mp hmem).1
  split_ifs with hzero
  · exact hinv.unlink hzone hok hindex harray (hnfree.trans hzero)
  · exact hinv.setZone hzone hok hindex hmem (by omega)

end HeapInv

namespace Serves

variable {result : SlabHeap × Option ℕ} {zs' : List ℕ}

theorem failed (hinv : HeapInv start len h zs others) :
    Serves start len h others size (h, none) zs others :=
  ⟨hinv, fun _ halive => halive, by simp, by simp⟩

theorem frame (hserves : Serves start len h others size result zs' others')
    (sem : BitVec 16) (used max : ℕ) : Serves start len h others size
      ({ result.1 with heapSem := sem, usedMem := used, maxMem := max }, result.2) zs' others' where
  heap := hserves.heap.frame sem used max
  kept b halive := (hserves.kept b halive).congr rfl rfl
  alive p hp := (hserves.alive p hp).congr rfl rfl
  fresh := hserves.fresh

theorem of_kept {g : List RtPageHead} {others₁ : List RtPageHead}
    (hserves : Serves start len h' others₁ size result zs' others')
    (hkept : ∀ b, Alive h g b → Alive h' others₁ b) :
    Serves start len h g size result zs' others' :=
  { hserves with
    kept b halive := hserves.kept b (hkept b halive)
    fresh p hp b halive := hserves.fresh p hp b (hkept b halive) }

end Serves

section

variable (hinv : HeapInv start len h zs others)
include hinv

theorem serves_mallocFromZone
    (harray : h.zoneArray zi = z :: rest) (hsize : size = chunkSize zi) (hle : n ≤ size) :
    ∃ result, mallocFromZone h zi size z rest = some result ∧
      Serves start len h others n result zs others := by
  obtain ⟨zone, hzone, rfl⟩ := hinv.listed zi z (harray ▸ mem_cons_self)
  have hok := hinv.ok z zone hzone
  rw [← hok.chunksize] at hsize
  subst hsize
  have hlinked := (hinv.linked z zone hzone).mp (harray ▸ mem_cons_self)
  have hzones : (if zone.zNfree - 1 = 0 then h.setArray zone.zZoneindex rest else h).zones =
      h.zones := by split_ifs <;> rfl
  have husage : (if zone.zNfree - 1 = 0 then h.setArray zone.zZoneindex rest else h).memusage =
      h.memusage := by split_ifs <;> rfl
  unfold mallocFromZone
  rw [hzone]
  by_cases hcut : zone.zUindex + 1 ≠ zone.zNmax
  · have hmore : zone.zUindex + 1 < zone.zNmax := lt_of_le_of_ne hok.uindex_lt hcut
    refine ⟨_, if_pos hcut, ?_⟩
    have hkept : ∀ b, Alive h others b → Alive (h.setZone z
        { zone with zNfree := zone.zNfree - 1, zUindex := zone.zUindex + 1 }) others b := by
      intro b halive
      refine HeapInv.alive_setZone hzone ?_ halive
      exact fun i hi hused _ => ⟨le_succ_of_le hi, rfl, hused, rfl⟩
    constructor
    · exact (hinv.takeChunk hzone (hok.cut hcut) rfl harray rfl).frame _ _ _
    · intro b halive
      apply (hkept b halive).congr
      · exact congrArg (update · z _) hzones
      · exact husage
    · rintro p hp
      obtain rfl := some.inj hp
      refine Alive.chunk (i := zone.zUindex + 1) (update_self _ _ _) le_rfl ?_ hle
      intro hfree
      obtain ⟨j, hj, heq⟩ := hok.free_cut _ hfree
      have := hok.chunk_inj heq
      omega
    · rintro p hp b halive
      obtain rfl := some.inj hp
      have hne := hinv.ne_of_not_used hzone hmore (.inl (lt_succ_self _)) halive
      exact hne
  · have hall : zone.zUindex + 1 = zone.zNmax := not_not.mp hcut
    cases hfree : zone.zFreechunk with
    | nil =>
      have hnfree := hok.nfree
      rw [hfree] at hnfree
      simp only [length_nil] at hnfree
      omega
    | cons chunk more =>
      have hchunk : chunk ∈ zone.zFreechunk := hfree ▸ mem_cons_self
      obtain ⟨i, hi, rfl⟩ := hok.free_cut chunk hchunk
      have hnodup := hok.free_nodup
      rw [hfree, nodup_cons] at hnodup
      simp only [bind_eq_bind, bind_some, if_neg hcut, hfree]
      refine ⟨_, rfl, ?_⟩
      have hkept : ∀ b, Alive h others b → Alive (h.setZone z
          { zone with zNfree := zone.zNfree - 1, zFreechunk := more }) others b := by
        intro b halive
        refine HeapInv.alive_setZone hzone ?_ halive
        intro j hj hused _
        exact ⟨hj, rfl, fun hmem => hused (hfree ▸ mem_cons_of_mem _ hmem), rfl⟩
      constructor
      · exact (hinv.takeChunk hzone (hok.pop hfree) rfl harray rfl).frame _ _ _
      · intro b halive
        apply (hkept b halive).congr
        · exact congrArg (update · z _) hzones
        · exact husage
      · rintro p hp
        obtain rfl := some.inj hp
        exact @Alive.chunk _ others z i n
          { zone with zNfree := zone.zNfree - 1, zFreechunk := more }
          (update_self _ _ _) hi hnodup.1 hle
      · rintro p hp b halive
        obtain rfl := some.inj hp
        exact hinv.ne_of_not_used hzone (hi.trans_lt hok.uindex_lt) (.inr hchunk) halive

theorem not_alive_of_full (hzone : h.zones z = some zone)
    (hfull : zone.zNfree = zone.zNmax) (hi : i ≤ zone.zUindex)
    (hused : zone.chunk i ∉ zone.zFreechunk) : False :=
  hused ((hinv.ok z zone hzone).mem_free_of_full hfull hi)

theorem serves_mallocFreshZone
    (hfree : h.zoneFree = z :: rest) (hindexed : Indexed n zi (chunkSize zi))
    (hsmall : n < h.zoneLimit) : Serves start len h others n
      (mallocFreshZone { h with zoneFree := rest, zoneFreeCnt := h.zoneFreeCnt - 1 } zi
        (chunkSize zi) z) zs others := by
  have hmem : z ∈ h.zoneFree := hfree ▸ mem_cons_self
  obtain ⟨zone, hzone, hfull⟩ := hinv.free_full z hmem
  have hok : ZoneOk h.zoneSize z (freshZone h.zoneSize zi (chunkSize zi) z) :=
    ZoneOk.fresh hindexed.index_lt (hinv.chunkSize_le hindexed hsmall) hinv.config.zoneSize_min
  have hnodup := hinv.free_nodup
  rw [hfree, nodup_cons] at hnodup
  have hnotlisted : ∀ zi, z ∉ h.zoneArray zi := by
    intro zi hlisted
    by_cases hindex : zi = zone.zZoneindex
    · rw [hindex, hinv.linked z zone hzone] at hlisted
      exact hlisted.2 hmem
    · exact hinv.not_listed hzone hindex hlisted
  have hcnt := hinv.free_cnt
  rw [hfree, length_cons] at hcnt
  push_cast at hcnt
  have hchanged := HeapInv.change (z :: h.zoneArray zi) rest (h.zoneFreeCnt - 1) hinv
    hzone hok (fun zi _ => hnotlisted zi)
    ⟨nodup_cons.mpr ⟨hnotlisted zi, hinv.array_nodup zi⟩, fun y hy => by
      simp [hy, freshZone]⟩
    ⟨hnodup.2, fun y hy => by simp [hfree, hy]⟩
    (iff_of_true mem_cons_self ⟨by
      have htwo := hok.two_le
      have hnfree := hok.nfree
      simp only [freshZone] at htwo hnfree ⊢
      omega, hnodup.1⟩)
    (fun hz => absurd hz hnodup.1) (by omega)
  constructor
  · exact hchanged.frame _ _ _
  · intro b halive
    have hset : Alive (h.setZone z (freshZone h.zoneSize zi (chunkSize zi) z)) others b := by
      refine HeapInv.alive_setZone hzone ?_ halive
      intro i hi hused _
      exact (not_alive_of_full hinv hzone hfull hi hused).elim
    exact hset.congr rfl rfl
  · rintro p hp
    obtain rfl := some.inj hp
    exact @Alive.chunk _ others z 0 n (freshZone h.zoneSize zi (chunkSize zi) z)
      (update_self _ _ _) le_rfl not_mem_nil hindexed.le_size
  · rintro p hp b halive heq
    obtain rfl := some.inj hp
    have hself := (update_self z (some (freshZone h.zoneSize zi (chunkSize zi) z)) h.zones)
    have hzero := lt_of_lt_of_le two_pos hok.two_le
    cases halive with
    | @chunk y i size record hrecord hi hused hsize =>
      by_cases hy : y = z
      · subst hy
        rw [hzone] at hrecord
        obtain rfl := some.inj hrecord
        exact not_alive_of_full hinv hzone hfull hi hused
      · have hrecord' := (update_of_ne hy
          (some (freshZone h.zoneSize zi (chunkSize zi) z)) h.zones).trans hrecord
        have hcut := lt_of_le_of_lt hi (hinv.ok y record hrecord).uindex_lt
        exact hy (hchanged.chunk_inj hrecord' hself hcut hzero heq).1
    | pages hrun husage hsize =>
      exact hchanged.chunk_ne_page hself hzero (husage ▸ rfl) heq.symm

theorem HeapInv.start_ne_taken (hpos : 0 < npages)
    (hfound : (takePages npages h.rtPageList).1 = some p)
    (hrun : run ∈ others) : run.start ≠ p := by
  intro heq
  have hrunPos := hinv.pages.allocated_pos run (mem_append_right _ hrun)
  apply hinv.taken_disjoint hpos hfound (mem_append_right _ hrun) hpos
  unfold RtPageHead.behind
  omega

theorem serves_addZone (hfound : (takePages h.zonePageCnt h.rtPageList).1 = some p)
    (hindexed : Indexed n zi (chunkSize zi)) (hsmall : n < h.zoneLimit) :
    Serves start len h others n
      (mallocFreshZone ({ h with rtPageList := (takePages h.zonePageCnt h.rtPageList).2
        }.setZoneUsage p fun off => ⟨.small, off⟩) zi (chunkSize zi) p) (p :: zs) others := by
  have hpos := hinv.zonePageCnt_pos
  have hfresh : ZoneOk h.zoneSize p (freshZone h.zoneSize zi (chunkSize zi) p) :=
    ZoneOk.fresh hindexed.index_lt (hinv.chunkSize_le hindexed hsmall) hinv.config.zoneSize_min
  -- the zone is set up as if it had been free before
  have hok := hfresh.push (i := 0) le_rfl not_mem_nil
  have hadded := hinv.addZone hfound hok (by simp [freshZone])
  have hserves := (serves_mallocFreshZone hadded rfl hindexed hsmall).frame
    (mallocFreshZone h zi (chunkSize zi) p).1.heapSem
    (mallocFreshZone h zi (chunkSize zi) p).1.usedMem
    (mallocFreshZone h zi (chunkSize zi) p).1.maxMem
  have hnone : h.zones p = none := by
    cases hzone : h.zones p with
    | none => rfl
    | some record =>
      have hmem := hinv.not_mem_of_taken hpos hfound ((hinv.zone p).mpr ⟨record, hzone⟩) hpos
      lia
  have hkept := hserves.of_kept (h := h) (g := others) (by
    intro b halive
    cases halive with
    | @chunk y i size record hrecord hi hused hsize =>
      have hy : y ≠ p := by
        rintro rfl
        rw [hnone] at hrecord
        cases hrecord
      exact .chunk ((update_of_ne hy _ _).trans hrecord) hi hused hsize
    | @pages run size hrun husage hsize =>
      apply Alive.pages hrun _ hsize
      simp only [setZone, setZoneUsage]
      rw [if_neg, husage]
      intro hmem
      apply hinv.taken_disjoint hpos hfound (mem_append_right _ hrun)
        (o := run.start - p) (by lia)
      have hrunPos := hinv.pages.allocated_pos run (mem_append_right _ hrun)
      unfold RtPageHead.behind
      lia)
  have hcnt : h.zoneFreeCnt + 1 - 1 = h.zoneFreeCnt := by lia
  simp only [mallocFreshZone, setZone, setZoneUsage, setArray,
    charge, unlock, PageHeap.release, update_idem, hcnt]
    at hkept ⊢
  exact hkept

end

theorem le_large_pages (hsize : size < 4294967296)
    (hpos : 0 < alignUp size RT_MM_PAGE_SIZE >>> RT_MM_PAGE_BITS) :
    size ≤ (alignUp size RT_MM_PAGE_SIZE >>> RT_MM_PAGE_BITS) * RT_MM_PAGE_SIZE := by
  have hshift : alignUp size RT_MM_PAGE_SIZE >>> RT_MM_PAGE_BITS =
      alignUp size (2 ^ 12) / 2 ^ 12 := shiftRight_eq_div_pow _ _
  rw [hshift] at hpos ⊢
  have hdvd : 2 ^ 12 ∣ alignUp size (2 ^ 12) := dvd_alignUp (by decide)
  have hround : alignUp size (2 ^ 12) / 2 ^ 12 * RT_MM_PAGE_SIZE = alignUp size (2 ^ 12) :=
    Nat.div_mul_cancel hdvd
  rw [hround]
  apply le_alignUp (by decide)
  by_contra hwrap
  rw [alignUp_eq_zero_of_wrap (by decide) hsize (not_le.mp hwrap)] at hpos
  cases hpos

theorem serves_mallocLarge (hinv : HeapInv start len h zs others) (hsem : h.heapSem ≠ 0)
    (hsize : size < 4294967296) : ∃ result others', mallocLarge h size = some result ∧
      Serves start len h others size result zs others' := by
  obtain ⟨h₁, page, halloc⟩ :=
    exists_pageAlloc hsem (alignUp size RT_MM_PAGE_SIZE >>> RT_MM_PAGE_BITS)
  unfold mallocLarge
  simp only [bind_eq_bind, halloc, bind_some]
  obtain ⟨rfl, rfl, -⟩ | ⟨p, rfl, hpos, hfound, rfl⟩ := pageAlloc_cases halloc
  · exact ⟨_, others, rfl, Serves.failed hinv⟩
  · have hadded := HeapInv.addLarge ⟨.large,
      alignUp size RT_MM_PAGE_SIZE >>> RT_MM_PAGE_BITS⟩ hinv hpos hfound
    simp only
    rw [lock_of_ne_zero]
    · refine ⟨_, _, rfl, hadded.frame _ _ _, ?_, ?_, ?_⟩
      · intro b halive
        cases halive with
        | chunk hrecord hi hused hle => exact .chunk hrecord hi hused hle
        | @pages run asked hrun husage hle =>
          apply Alive.pages (mem_cons_of_mem _ hrun) _ hle
          exact (update_of_ne (hinv.start_ne_taken hpos hfound hrun) _ _).trans husage
      · rintro q hq
        obtain rfl := some.inj hq
        exact @Alive.pages _ _ ⟨p, alignUp size RT_MM_PAGE_SIZE >>> RT_MM_PAGE_BITS⟩ _
          mem_cons_self (update_self _ _ _) (le_large_pages hsize hpos)
      · rintro q hq b halive heq
        obtain rfl := some.inj hq
        cases halive with
        | @chunk z i asked record hrecord hi hused hle =>
          have hcut := lt_of_le_of_lt hi (hinv.ok z record hrecord).uindex_lt
          obtain ⟨hpage, -⟩ := hinv.chunk_page hrecord hcut
          have hchunk : record.chunk i = p * RT_MM_PAGE_SIZE := heq
          rw [hchunk, Nat.mul_div_cancel p (by decide)] at hpage
          exact hinv.not_mem_of_taken hpos hfound ((hinv.zone z).mpr ⟨record, hrecord⟩) hpos hpage
        | @pages run asked hrun husage hle =>
          have hstart : run.start = p :=
            eq_of_mul_eq_mul_right (by decide : 0 < RT_MM_PAGE_SIZE) heq
          exact hinv.start_ne_taken hpos hfound hrun hstart
    · exact hsem

theorem serves_rtMalloc (hinv : HeapInv start len h zs others) (hsem : h.heapSem ≠ 0)
    (hsize : size < 4294967296) : ∃ result zs' others', rtMalloc h size = some result ∧
      Serves start len h others size result zs' others' := by
  unfold rtMalloc
  by_cases hzero : size = 0
  · exact ⟨_, zs, others, if_pos hzero, Serves.failed hinv⟩
  rw [if_neg hzero]
  by_cases hlarge : h.zoneLimit ≤ size
  · obtain ⟨result, others', hmalloc, hserves⟩ := serves_mallocLarge hinv hsem hsize
    exact ⟨result, zs, others', (if_pos hlarge).trans hmalloc, hserves⟩
  rw [if_neg hlarge]
  have hsmall : size < h.zoneLimit := not_le.mp hlarge
  have hindexed := zoneindex_spec (pos_of_ne_zero hzero)
    (hsmall.trans_le hinv.config.zoneLimit_max)
  have hrounded := hindexed.size_eq
  rw [hrounded] at hindexed
  rw [lock_of_ne_zero hsem, bind_eq_bind, bind_some]
  simp only [hrounded]
  -- the locked heap differs from `h` in the semaphore only
  have hlocked := hinv.frame (h.heapSem - 1) h.usedMem h.maxMem
  have hsame : ∀ b, Alive h others b → Alive { h with heapSem := h.heapSem - 1 } others b :=
    fun b halive => halive.congr rfl rfl
  cases harray : h.zoneArray (zoneindex size).1 with
  | cons z rest =>
    obtain ⟨result, hmalloc, hserves⟩ := serves_mallocFromZone hlocked harray rfl hindexed.le_size
    exact ⟨result, zs, others, hmalloc, hserves.of_kept hsame⟩
  | nil =>
    cases hfree : h.zoneFree with
    | cons z rest =>
      have hserves := serves_mallocFreshZone hlocked hfree hindexed hsmall
      exact ⟨_, zs, others, rfl, hserves.of_kept hsame⟩
    | nil =>
      have hunlock : unlock { h with heapSem := h.heapSem - 1, zoneFree := [] } = h := by
        rw [← hfree]
        simp only [unlock, PageHeap.release, BitVec.sub_add_cancel]
      have hcnt : h.zoneSize / RT_MM_PAGE_SIZE = h.zonePageCnt := by
        rw [hinv.config.zoneSize_eq, Nat.mul_div_cancel _ (by decide)]
      simp only [hunlock, hcnt]
      obtain ⟨h₁, page, halloc⟩ := exists_pageAlloc hsem h.zonePageCnt
      rw [halloc, bind_eq_bind, bind_some]
      obtain ⟨rfl, rfl, -⟩ | ⟨p, rfl, hpos, hfound, rfl⟩ := pageAlloc_cases halloc
      · exact ⟨_, zs, others, rfl, (Serves.failed hinv).frame _ _ _⟩
      · simp only
        rw [lock_of_ne_zero, bind_some]
        · exact ⟨_, p :: zs, others, rfl,
            (serves_addZone hlocked hfound hindexed hsmall).of_kept hsame⟩
        · exact hsem

/-- A release keeps what is alive but the block at `ptr`. -/
structure Releases (start len : ℕ) (h : SlabHeap) (others : List RtPageHead) (ptr : ℕ)
    (h' : SlabHeap) (zs' : List ℕ) (others' : List RtPageHead) : Prop where
  heap : HeapInv start len h' zs' others'
  kept : ∀ c, Alive h others c → c.ptr ≠ ptr → Alive h' others' c

section

variable (hinv : HeapInv start len h zs others)
include hinv

section

variable (hsem : h.heapSem + 1 ≠ 0)
include hsem

theorem exists_releaseZone (hfree : h.zoneFree = z :: rest) :
    ∃ h', releaseZone h = some h' ∧ HeapInv start len h' (zs.erase z) others ∧
      ∀ c, Alive h others c → Alive h' others c := by
  obtain ⟨zone, hzone, hfull⟩ := hinv.free_full z (hfree ▸ mem_cons_self)
  have hz := (hinv.zone z).mpr ⟨zone, hzone⟩
  have hcnt : h.zoneSize / RT_MM_PAGE_SIZE = h.zonePageCnt := by
    rw [hinv.config.zoneSize_eq, Nat.mul_div_cancel _ (by decide)]
  have hdropped := hinv.dropZone hfree
  unfold releaseZone
  rw [hfree]
  obtain ⟨h', hpages⟩ := exists_pageFree (h := unlock (setZoneUsage { h with
      zoneFree := rest
      zoneFreeCnt := h.zoneFreeCnt - 1
      zones := update h.zones z none } z fun _ => ⟨.free, 0⟩)) hsem z h.zonePageCnt
  refine ⟨h', ?_, ?_, ?_⟩
  · rw [← hpages, ← hcnt]
    rfl
  · obtain rfl := pageFree_eq hpages
    exact hdropped.frame _ _ _
  · obtain rfl := pageFree_eq hpages
    intro c halive
    cases halive with
    | @chunk y i size record hrecord hi hused hsize =>
      have hy : y ≠ z := by
        rintro rfl
        rw [hzone] at hrecord
        obtain rfl := some.inj hrecord
        exact not_alive_of_full hinv hzone hfull hi hused
      exact .chunk ((update_of_ne hy _ _).trans hrecord) hi hused hsize
    | @pages run size hrun husage hsize =>
      apply Alive.pages hrun _ hsize
      simp only [unlock, setZoneUsage]
      rw [if_neg, husage]
      intro hmem
      have hrunPos := hinv.pages.allocated_pos run (mem_append_right _ hrun)
      apply hinv.zone_disjoint hz hrun hmem
      unfold RtPageHead.behind
      omega

theorem exists_retireZone
    (hzone : h.zones z = some zone) (hmem : z ∈ h.zoneArray zone.zZoneindex)
    (hfull : zone.zNfree = zone.zNmax) :
    ∃ h' zs', retireZone h z zone = some h' ∧ HeapInv start len h' zs' others ∧
      ∀ c, Alive h others c → Alive h' others c := by
  have hok := (hinv.ok z zone hzone).setMagic (-1)
  have hnotfree := ((hinv.linked z zone hzone).mp hmem).2
  have hnodup := hinv.array_nodup zone.zZoneindex
  have hretired := HeapInv.change ((h.zoneArray zone.zZoneindex).erase z)
    (z :: h.zoneFree) (h.zoneFreeCnt + 1) hinv hzone hok
    (fun zi hne => hinv.not_listed hzone hne)
    ⟨hnodup.erase z, fun y hy => by simp [hnodup.mem_erase_iff, hy]⟩
    ⟨nodup_cons.mpr ⟨hnotfree, hinv.free_nodup⟩, fun y hy => by simp [hy]⟩
    (iff_of_false (fun herase => (hnodup.mem_erase_iff.mp herase).1 rfl)
      (fun hlinked => hlinked.2 mem_cons_self))
    (fun _ => hfull) (by simp [hinv.free_cnt])
  have hkept : ∀ c, Alive h others c → Alive (h.setZone z { zone with zMagic := -1 }) others c := by
    intro c halive
    refine HeapInv.alive_setZone hzone ?_ halive
    exact fun i hi hused _ => ⟨hi, rfl, hused, rfl⟩
  unfold retireZone
  rw [if_pos hmem]
  simp only
  split_ifs with hmany
  · obtain ⟨h', hrelease, hinv', hkept'⟩ := exists_releaseZone hretired hsem rfl
    exact ⟨h', _, hrelease, hinv', fun c halive => hkept' c ((hkept c halive).congr rfl rfl)⟩
  · exact ⟨_, zs, rfl, hretired.frame _ _ _, fun c halive => (hkept c halive).congr rfl rfl⟩

theorem exists_retire_or_unlock
    (hzone : h.zones z = some zone) (hmem : z ∈ h.zoneArray zone.zZoneindex) :
    ∃ h' zs', (if zone.zNfree = zone.zNmax ∧ h.zoneArray zone.zZoneindex ≠ [z] then
        retireZone h z zone else some h.unlock) = some h' ∧
      HeapInv start len h' zs' others ∧ ∀ c, Alive h others c → Alive h' others c := by
  split_ifs with hretire
  · exact exists_retireZone hinv hsem hzone hmem hretire.1
  · exact ⟨_, zs, rfl, hinv.frame _ _ _, fun c halive => halive.congr rfl rfl⟩

theorem exists_freeChunk
    (hzone : h.zones z = some zone) (hi : i ≤ zone.zUindex)
    (hused : zone.chunk i ∉ zone.zFreechunk) : ∃ h' zs', freeChunk h (zone.chunk i) z = some h' ∧
      Releases start len h others (zone.chunk i) h' zs' others := by
  have hok := hinv.ok z zone hzone
  have hpush := hok.push hi hused
  have hnotfree : z ∉ h.zoneFree := by
    intro hmem
    obtain ⟨record, hrecord, hfull⟩ := hinv.free_full z hmem
    rw [hzone] at hrecord
    obtain rfl := some.inj hrecord
    exact not_alive_of_full hinv hzone hfull hi hused
  have hlinked := hinv.linked z zone hzone
  have hnonneg := hok.nfree_nonneg
  have hkept : ∀ c, Alive h others c → c.ptr ≠ zone.chunk i → Alive (h.setZone z
      { zone with zFreechunk := zone.chunk i :: zone.zFreechunk, zNfree := zone.zNfree + 1 })
      others c := by
    intro c halive hne
    refine HeapInv.alive_setZone hzone ?_ halive
    intro j hj hjused heq
    refine ⟨hj, rfl, ?_, rfl⟩
    intro hmem
    obtain hsame | hmem := mem_cons.mp hmem
    · exact hne (heq.trans hsame)
    · exact hjused hmem
  unfold freeChunk
  simp only [bind_eq_bind, hzone, bind_some]
  by_cases hzero : zone.zNfree = 0
  · simp only [if_pos hzero]
    have hnotmem : z ∉ h.zoneArray zone.zZoneindex := by
      rw [hlinked, hzero]
      exact fun hmem => absurd hmem.1 (lt_irrefl _)
    have hchanged := HeapInv.change (z :: h.zoneArray zone.zZoneindex)
      h.zoneFree h.zoneFreeCnt hinv hzone hpush
      (fun zi hne => hinv.not_listed hzone hne)
      ⟨nodup_cons.mpr ⟨hnotmem, hinv.array_nodup _⟩, fun y hy => by simp [hy]⟩
      ⟨hinv.free_nodup, fun _ _ => Iff.rfl⟩
      (iff_of_true mem_cons_self ⟨by simp only; omega, hnotfree⟩)
      (fun hfree => absurd hfree hnotfree) hinv.free_cnt
    obtain ⟨h', zs', hend, hinv', hkept'⟩ := exists_retire_or_unlock
      (hchanged.frame h.heapSem (sub32 h.usedMem zone.zChunksize) h.maxMem) hsem
      (update_self _ _ _) (by
        simp only [setArray, update_self]
        exact mem_cons_self)
    exact ⟨h', zs', hend, hinv', fun c halive hne =>
      hkept' c ((hkept c halive hne).congr rfl rfl)⟩
  · simp only [if_neg hzero]
    have hmem : z ∈ h.zoneArray zone.zZoneindex := hlinked.mpr ⟨by omega, hnotfree⟩
    have hchanged := hinv.setZone hzone hpush rfl hmem (by simp only; omega)
    obtain ⟨h', zs', hend, hinv', hkept'⟩ := exists_retire_or_unlock
      (hchanged.frame h.heapSem (sub32 h.usedMem zone.zChunksize) h.maxMem) hsem
      (update_self _ _ _) hmem
    exact ⟨h', zs', hend, hinv', fun c halive hne =>
      hkept' c ((hkept c halive hne).congr rfl rfl)⟩

end

theorem exists_rtFree (hsem : h.heapSem ≠ 0)
    (halive : Alive h others b) : ∃ h' zs' others', rtFree h (some b.ptr) = some h' ∧
      Releases start len h others b.ptr h' zs' others' := by
  cases halive with
  | @chunk z i size zone hzone hi hused hsize =>
    obtain ⟨hpage, husage⟩ := hinv.chunk_page hzone
      (lt_of_le_of_lt hi (hinv.ok z zone hzone).uindex_lt)
    have hback : zone.chunk i / RT_MM_PAGE_SIZE - (zone.chunk i / RT_MM_PAGE_SIZE - z) = z :=
      Nat.sub_sub_self hpage.1
    have hlocked := hinv.frame (h.heapSem - 1) h.usedMem h.maxMem
    obtain ⟨h', zs', hfree, hreleases⟩ := exists_freeChunk hlocked
      (by simpa only [BitVec.sub_add_cancel] using hsem) hzone hi hused
    refine ⟨h', zs', others, ?_, hreleases.heap, ?_⟩
    · unfold rtFree
      simp only [husage, hback, reduceCtorEq, if_false, lock_of_ne_zero hsem,
        bind_eq_bind, bind_some]
      exact hfree
    · exact fun c hc hne => hreleases.kept c (hc.congr rfl rfl) hne
  | @pages run size hrun husage hsize =>
    have hdropped := HeapInv.dropLarge ⟨.large, 0⟩ hinv hrun
    have hback : run.start * RT_MM_PAGE_SIZE / RT_MM_PAGE_SIZE = run.start :=
      Nat.mul_div_cancel _ (by decide)
    obtain ⟨h', hpages⟩ := exists_pageFree (h := unlock (credit
      (setUsage { h with heapSem := h.heapSem - 1 } run.start ⟨.large, 0⟩)
      (mul32 run.page RT_MM_PAGE_SIZE)))
      (by simpa only [unlock_heapSem, credit_heapSem, setUsage_heapSem,
        BitVec.sub_add_cancel] using hsem) run.start run.page
    refine ⟨h', zs, others.erase run, ?_, ?_, ?_⟩
    · unfold rtFree freeLarge
      simp only [hback, husage, if_true, lock_of_ne_zero hsem, bind_eq_bind,
        bind_some]
      exact hpages
    · obtain rfl := pageFree_eq hpages
      exact hdropped.frame _ _ _
    · obtain rfl := pageFree_eq hpages
      intro c hc hne
      cases hc with
      | chunk hrecord hi hused hle => exact .chunk hrecord hi hused hle
      | @pages other asked hother hlarge hle =>
        have hstart : other.start ≠ run.start := by
          intro heq
          exact hne (congrArg (· * RT_MM_PAGE_SIZE) heq)
        have hmem : other ∈ others.erase run :=
          (mem_erase_of_ne fun heq => hstart (congrArg RtPageHead.start heq)).mpr hother
        exact .pages hmem ((update_of_ne hstart _ _).trans hlarge) hle

end

/-- The blocks handed out are alive and at distinct addresses. -/
structure SlabInv (start len : ℕ) (h : SlabHeap) (live : List Block) (zs : List ℕ)
    (others : List RtPageHead) : Prop where
  heap : HeapInv start len h zs others
  alive : ∀ b ∈ live, Alive h others b
  distinct : (live.map Block.ptr).Nodup

namespace SlabInv

variable {live : List Block} {call : HeapCall} {zs' : List ℕ}
  {result : SlabHeap × Option ℕ}

theorem mem_forget {c : Block} : c ∈ forget (some ptr) live ↔ c ∈ live ∧ c.ptr ≠ ptr := by
  simp [forget]

theorem nodup_forget {ptr : Option ℕ}
    (hnodup : (live.map Block.ptr).Nodup) : ((forget ptr live).map Block.ptr).Nodup :=
  hnodup.sublist (filter_sublist.map _)

theorem served (hinv : SlabInv start len h live zs others)
    (hserves : Serves start len h others size result zs' others') :
    SlabInv start len result.1 (HeapCall.live live result.2 (.malloc size)) zs' others' := by
  cases hpage : result.2 with
  | none => exact ⟨hserves.heap, fun b hb => hserves.kept b (hinv.alive b hb), hinv.distinct⟩
  | some p =>
    refine ⟨hserves.heap, ?_, ?_⟩
    · intro b hb
      obtain rfl | hb := mem_cons.mp hb
      · exact hserves.alive p hpage
      · exact hserves.kept b (hinv.alive b hb)
    · apply nodup_cons.mpr ⟨_, hinv.distinct⟩
      intro hmem
      obtain ⟨b, hb, heq⟩ := mem_map.mp hmem
      exact hserves.fresh p hpage b (hinv.alive b hb) heq

theorem released (hinv : SlabInv start len h live zs others)
    (hreleases : Releases start len h others ptr h' zs' others') :
    SlabInv start len h' (forget (some ptr) live) zs' others' := by
  refine ⟨hreleases.heap, ?_, nodup_forget hinv.distinct⟩
  intro c hc
  obtain ⟨hmem, hne⟩ := mem_forget.mp hc
  exact hreleases.kept c (hinv.alive c hmem) hne

theorem le_zoneindex (hpos : size ≠ 0) (hsize : size < 4294967296) :
    size ≤ (zoneindex size).2 ∧ (zoneindex size).2 < 4294967296 := by
  by_cases hsmall : size < 16384
  · have hindexed := zoneindex_spec (pos_of_ne_zero hpos) hsmall
    have hle := hindexed.size_le
    exact ⟨hindexed.le_size, by lia⟩
  · have hkept : (zoneindex size).2 = size := by
      unfold zoneindex
      simp only [if_neg (show ¬size < 128 by lia), if_neg (show ¬size < 256 by lia),
        if_neg (show ¬size < 8192 by lia), if_neg hsmall]
    rw [hkept]
    exact ⟨le_rfl, hsize⟩

section

variable (hinv : SlabInv start len h live zs others)
include hinv

theorem resized (halive : Alive h others ⟨ptr, size⟩) :
    SlabInv start len h (⟨ptr, size⟩ :: forget (some ptr) live) zs others := by
  refine ⟨hinv.heap, ?_, nodup_cons.mpr ⟨?_, nodup_forget hinv.distinct⟩⟩
  · intro c hc
    obtain rfl | hc := mem_cons.mp hc
    · exact halive
    · exact hinv.alive c (mem_forget.mp hc).1
  · intro hmem
    obtain ⟨c, hc, heq⟩ := mem_map.mp hmem
    exact (mem_forget.mp hc).2 heq

theorem exists_moveBlock {request : ℕ}
    (hsem : h.heapSem ≠ 0) (hb : b ∈ live) (hpos : size ≠ 0) (hle : size ≤ request)
    (hrequest : request < 4294967296) :
    ∃ result zs' others', moveBlock h b.ptr request = some result ∧
      SlabInv start len result.1 (HeapCall.live live result.2 (.realloc (some b.ptr) size))
        zs' others' := by
  obtain ⟨⟨h₁, nptr⟩, zs₁, others₁, hmalloc, hserves⟩ := serves_rtMalloc hinv.heap hsem hrequest
  have hserved := hinv.served hserves
  unfold moveBlock
  rw [hmalloc]
  cases nptr with
  | none =>
    refine ⟨_, zs₁, others₁, rfl, ?_⟩
    simpa [HeapCall.live, hpos] using hserved
  | some nptr =>
    have hsem₁ : h₁.heapSem ≠ 0 := by
      obtain ⟨-, hnone, -⟩ | ⟨-, hkept⟩ := rtMalloc_heapSem hmalloc
      · cases hnone
      · exact hkept.symm ▸ hsem
    have hold := hserves.kept b (hinv.alive b hb)
    have hnew := (hserves.alive nptr rfl).mono hle
    have hne : b.ptr ≠ nptr := hserves.fresh nptr rfl b (hinv.alive b hb)
    obtain ⟨h₂, zs₂, others₂, hfree, hreleases⟩ := exists_rtFree hserves.heap hsem₁ hold
    refine ⟨(h₂, some nptr), zs₂, others₂, ?_, ?_⟩
    · simp only [bind_eq_bind, bind_some, hfree]
    · have hreleased := hserved.released hreleases
      refine ⟨hreleases.heap, ?_, ?_⟩
      · intro c hc
        obtain rfl | hc := mem_cons.mp hc
        · exact hreleases.kept _ hnew hne.symm
        · obtain ⟨hmem, hother⟩ := mem_forget.mp hc
          exact hreleases.kept c (hserves.kept c (hinv.alive c hmem)) hother
      · have hdistinct := hreleased.distinct
        have hforget : forget (some b.ptr) (HeapCall.live live (some nptr) (.malloc request)) =
            ⟨nptr, request⟩ :: forget (some b.ptr) live := by
          simp [HeapCall.live, forget, hne.symm]
        rw [hforget] at hdistinct
        exact hdistinct

/-- A legal call returns and keeps the invariant. -/
theorem exists_execute (hsem : h.heapSem ≠ 0)
    (hlegal : call.Legal live) : ∃ result zs' others', call.execute h = some result ∧
      SlabInv start len result.1 (call.live live result.2) zs' others' := by
  cases call with
  | malloc size =>
    obtain ⟨result, zs', others', hmalloc, hserves⟩ := serves_rtMalloc hinv.heap hsem hlegal
    exact ⟨result, zs', others', hmalloc, hinv.served hserves⟩
  | free ptr =>
    cases ptr with
    | none =>
      refine ⟨_, zs, others, rfl, ?_⟩
      simpa [HeapCall.live, forget] using hinv
    | some ptr =>
      obtain ⟨b, hb, rfl⟩ := mem_map.mp (hlegal ptr rfl)
      obtain ⟨h', zs', others', hfree, hreleases⟩ := exists_rtFree hinv.heap hsem (hinv.alive b hb)
      refine ⟨(h', none), zs', others', ?_, hinv.released hreleases⟩
      simp only [HeapCall.execute, hfree, map_some]
  | realloc ptr size =>
    obtain ⟨hsize, hptr⟩ := hlegal
    cases ptr with
    | none =>
      obtain ⟨result, zs', others', hmalloc, hserves⟩ := serves_rtMalloc hinv.heap hsem hsize
      refine ⟨result, zs', others', hmalloc, ?_⟩
      have hforget : forget none live = live := by simp [forget]
      simp only [HeapCall.live, hforget, ite_self]
      exact hinv.served hserves
    | some ptr =>
      obtain ⟨b, hb, rfl⟩ := mem_map.mp (hptr ptr rfl)
      have halive := hinv.alive b hb
      by_cases hzero : size = 0
      · obtain ⟨h', zs', others', hfree, hreleases⟩ := exists_rtFree hinv.heap hsem halive
        refine ⟨(h', none), zs', others', ?_, ?_⟩
        · simp only [HeapCall.execute, rtRealloc, if_pos hzero, hfree, map_some]
        · simpa [HeapCall.live, hzero] using hinv.released hreleases
      · obtain ⟨hle, hlt⟩ := le_zoneindex hzero hsize
        cases hkind : halive with
        | @chunk z i asked zone hzone hi hused hasked =>
          obtain ⟨hpage, husage⟩ := hinv.heap.chunk_page hzone
            (lt_of_le_of_lt hi (hinv.heap.ok z zone hzone).uindex_lt)
          have hback : zone.chunk i / RT_MM_PAGE_SIZE -
              (zone.chunk i / RT_MM_PAGE_SIZE - z) = z := Nat.sub_sub_self hpage.1
          simp only [HeapCall.execute, rtRealloc, if_neg hzero, husage, hback, hzone,
            bind_eq_bind, bind_some]
          by_cases hsame : zone.zChunksize = (zoneindex size).2
          · refine ⟨_, zs, others, if_pos hsame, ?_⟩
            exact hinv.resized (.chunk hzone hi hused (hsame ▸ hle))
          · rw [if_neg hsame]
            exact hinv.exists_moveBlock hsem hb hzero hle hlt
        | @pages run asked hrun husage hasked =>
          have hback : run.start * RT_MM_PAGE_SIZE / RT_MM_PAGE_SIZE = run.start :=
            Nat.mul_div_cancel _ (by decide)
          simp only [HeapCall.execute, rtRealloc, if_neg hzero, hback, husage]
          exact hinv.exists_moveBlock hsem hb hzero le_rfl hsize

end

end SlabInv

theorem growZone_cases (limsize : ℕ) :
    growZone limsize 2 ZALLOC_MIN_ZONE_SIZE = 32768 ∨
      growZone limsize 2 ZALLOC_MIN_ZONE_SIZE = 65536 ∨
      growZone limsize 2 ZALLOC_MIN_ZONE_SIZE = 131072 := by
  unfold growZone
  split_ifs
  · unfold growZone
    split_ifs
    · exact .inr (.inr rfl)
    · exact .inr (.inl rfl)
  · exact .inl rfl

theorem ZoneConfig.of_size
    (hsize : h.zoneSize = 32768 ∨ h.zoneSize = 65536 ∨ h.zoneSize = 131072)
    (hlimit : h.zoneLimit =
      if ZALLOC_ZONE_LIMIT < h.zoneSize / 4 then ZALLOC_ZONE_LIMIT else h.zoneSize / 4)
    (hcnt : h.zonePageCnt = h.zoneSize / RT_MM_PAGE_SIZE) : ZoneConfig h := by
  obtain hsize | hsize | hsize := hsize
  all_goals
    rw [hsize] at hlimit hcnt
    constructor
    · rw [hsize, hcnt]
      decide
    · rw [hsize]
      decide
    · rw [hsize, hlimit]
      decide
    · rw [hlimit]
      decide
    · rw [hlimit]
      decide

theorem HeapInv.initial (start : ℕ) (h : SlabHeap) (hlen : len ≠ 0) (hconfig : ZoneConfig h)
    (hlist : h.rtPageList = [⟨start, len⟩]) (hzones : ∀ z, h.zones z = none)
    (harray : ∀ zi, h.zoneArray zi = []) (hfree : h.zoneFree = [])
    (hcnt : h.zoneFreeCnt = 0) : HeapInv start len h [] [] := by
  constructor
  · exact hconfig
  · rw [hlist]
    exact Partitioned.initial hlen
  · simp [hzones]
  · simp [hzones]
  · simp
  · simp [hzones]
  · simp [harray]
  · simp [harray]
  · simp [hfree]
  · simp [hfree]
  · simp [hfree, hcnt]

theorem HeapInv.pageAlloc {page : Option ℕ} (hinv : HeapInv start len h [] [])
    (halloc : h.pageAlloc npages = some (h', page)) : ∃ others, HeapInv start len h' [] others := by
  obtain ⟨rfl, -⟩ | ⟨p, -, hpos, hfound, rfl⟩ := pageAlloc_cases halloc
  · exact ⟨[], hinv⟩
  · have hadded := HeapInv.addLarge (h.memusage p) hinv hpos hfound
    simp only [setUsage, update_eq_self] at hadded
    exact ⟨_, hadded⟩

theorem SlabInv.of_init {beginAddr endAddr : ℕ} {s : SlabState}
    (hinit : (slabSystem beginAddr endAddr).init s) :
    ∃ start len others, SlabInv start len s.heap s.live [] others := by
  obtain ⟨hbegin, hend, hstart, hroom, hlive, memusage, hheap⟩ := hinit
  have hdvdStart : 2 ^ 12 ∣ alignUp beginAddr RT_MM_PAGE_SIZE := dvd_alignUp (by decide)
  have hdvdEnd : 2 ^ 12 ∣ alignDown endAddr RT_MM_PAGE_SIZE := dvd_alignDown hend (by decide)
  have hpages : (alignDown endAddr RT_MM_PAGE_SIZE - alignUp beginAddr RT_MM_PAGE_SIZE) /
      RT_MM_PAGE_SIZE ≠ 0 := by
    simp only [RT_MM_PAGE_SIZE] at *
    omega
  unfold rtSystemHeapInit at hheap
  rw [if_neg (not_le.mpr hroom)] at hheap
  obtain ⟨pages, hpageInit, hheap⟩ := bind_eq_some_iff.mp hheap
  obtain ⟨⟨heap, page⟩, halloc, hheap⟩ := bind_eq_some_iff.mp hheap
  obtain rfl := some.inj hheap
  obtain rfl := rtPageFree_eq hpageInit
  have hsize := growZone_cases
    (alignDown endAddr RT_MM_PAGE_SIZE - alignUp beginAddr RT_MM_PAGE_SIZE)
  generalize growZone (alignDown endAddr RT_MM_PAGE_SIZE - alignUp beginAddr RT_MM_PAGE_SIZE) 2
    ZALLOC_MIN_ZONE_SIZE = zoneSize at hsize halloc
  have hempty := HeapInv.initial (alignUp beginAddr RT_MM_PAGE_SIZE / RT_MM_PAGE_SIZE)
    { bootHeap memusage with
      rtPageList := putPages (alignUp beginAddr RT_MM_PAGE_SIZE / RT_MM_PAGE_SIZE)
        ((alignDown endAddr RT_MM_PAGE_SIZE - alignUp beginAddr RT_MM_PAGE_SIZE) /
          RT_MM_PAGE_SIZE) []
      heapSem := 1
      zoneSize := zoneSize
      zoneLimit := if ZALLOC_ZONE_LIMIT < zoneSize / 4 then ZALLOC_ZONE_LIMIT else zoneSize / 4
      zonePageCnt := zoneSize / RT_MM_PAGE_SIZE }
    hpages
    (ZoneConfig.of_size hsize rfl rfl)
    rfl (fun _ => rfl) (fun _ => rfl) rfl rfl
  obtain ⟨others, hinv⟩ := hempty.pageAlloc halloc
  refine ⟨_, _, others, hinv, ?_, ?_⟩
  · simp [hlive]
  · simp [hlive]

def SlabHeap.zoneOf (h : SlabHeap) (ptr : ℕ) : ℕ :=
  ptr / RT_MM_PAGE_SIZE - (h.memusage (ptr / RT_MM_PAGE_SIZE)).size

def SlabHeap.extent (h : SlabHeap) (ptr : ℕ) : ℕ :=
  match (h.memusage (ptr / RT_MM_PAGE_SIZE)).type with
  | .large => (h.memusage (ptr / RT_MM_PAGE_SIZE)).size * RT_MM_PAGE_SIZE
  | _ => ((h.zones (h.zoneOf ptr)).map SlabZone.zChunksize).getD 0

def FoundInZone (h : SlabHeap) (b : Block) : Prop :=
  (h.memusage (b.ptr / RT_MM_PAGE_SIZE)).type = .small ∧
    ∃ zone, h.zones (h.zoneOf b.ptr) = some zone ∧
      (∃ i ≤ zone.zUindex, b.ptr = zone.chunk i) ∧ b.ptr ∉ zone.zFreechunk ∧
      h.zoneOf b.ptr * RT_MM_PAGE_SIZE + sizeofSlabZone ≤ b.ptr ∧
      b.ptr + zone.zChunksize ≤ h.zoneOf b.ptr * RT_MM_PAGE_SIZE + h.zoneSize ∧
      b.size ≤ zone.zChunksize

def FoundLarge (h : SlabHeap) (b : Block) : Prop :=
  (h.memusage (b.ptr / RT_MM_PAGE_SIZE)).type = .large ∧
    b.ptr = b.ptr / RT_MM_PAGE_SIZE * RT_MM_PAGE_SIZE ∧
    b.size ≤ (h.memusage (b.ptr / RT_MM_PAGE_SIZE)).size * RT_MM_PAGE_SIZE ∧
    Apart h.rtPageList (b.ptr / RT_MM_PAGE_SIZE) (h.memusage (b.ptr / RT_MM_PAGE_SIZE)).size ∧
    ∀ z zone, h.zones z = some zone → z + h.zonePageCnt ≤ b.ptr / RT_MM_PAGE_SIZE ∨
        b.ptr / RT_MM_PAGE_SIZE + (h.memusage (b.ptr / RT_MM_PAGE_SIZE)).size ≤ z

/-- Counts and lists of the zones agree with their chunks. -/
structure SlabAccounting (s : SlabState) : Prop where
  nfree : ∀ z zone, s.heap.zones z = some zone →
    zone.zNfree = (zone.zNmax - 1 - zone.zUindex) + zone.zFreechunk.length
  linked : ∀ z zone, s.heap.zones z = some zone → ∀ zi, z ∈ s.heap.zoneArray zi ↔
      zi = zone.zZoneindex ∧ 0 < zone.zNfree ∧ z ∉ s.heap.zoneFree
  free_cnt : s.heap.zoneFreeCnt = s.heap.zoneFree.length
  found : ∀ b ∈ s.live, FoundInZone s.heap b ∨ FoundLarge s.heap b
  disjoint : s.live.Pairwise fun b c =>
    b.ptr + s.heap.extent b.ptr ≤ c.ptr ∨ c.ptr + s.heap.extent c.ptr ≤ b.ptr

namespace HeapInv

variable {c : Block}

theorem zoneOf_chunk (hinv : HeapInv start len h zs others) (hzone : h.zones z = some zone)
    (hi : i < zone.zNmax) : h.zoneOf (zone.chunk i) = z := by
  obtain ⟨hpage, husage⟩ := hinv.chunk_page hzone hi
  unfold zoneOf
  rw [husage]
  exact Nat.sub_sub_self hpage.1

theorem extent_chunk (hinv : HeapInv start len h zs others) (hzone : h.zones z = some zone)
    (hi : i < zone.zNmax) : h.extent (zone.chunk i) = zone.zChunksize := by
  obtain ⟨-, husage⟩ := hinv.chunk_page hzone hi
  unfold extent
  rw [husage, hinv.zoneOf_chunk hzone hi, hzone]
  rfl

theorem extent_pages (husage : h.memusage run.start = ⟨.large, run.page⟩) :
    h.extent (run.start * RT_MM_PAGE_SIZE) = run.page * RT_MM_PAGE_SIZE := by
  unfold extent
  rw [Nat.mul_div_cancel run.start (by decide : 0 < RT_MM_PAGE_SIZE), husage]

section

variable (hinv : HeapInv start len h zs others)
include hinv

theorem zone_apart (hzone : h.zones z = some zone)
    (hrun : run ∈ others) : z + h.zonePageCnt ≤ run.start ∨ run.behind ≤ z :=
  behind_le_or_le (b := h.zoneRun z) hinv.zonePageCnt_pos
    (hinv.pages.allocated_pos run (mem_append_right _ hrun))
    fun _ hpage => hinv.zone_disjoint ((hinv.zone z).mpr ⟨zone, hzone⟩) hrun hpage

theorem found (halive : Alive h others b) : FoundInZone h b ∨ FoundLarge h b := by
  cases halive with
  | @chunk z i size zone hzone hi hused hsize =>
    left
    have hok := hinv.ok z zone hzone
    have hcut := lt_of_le_of_lt hi hok.uindex_lt
    obtain ⟨-, husage⟩ := hinv.chunk_page hzone hcut
    unfold FoundInZone
    simp only [hinv.zoneOf_chunk hzone hcut, husage, true_and]
    obtain ⟨hheader, hrear⟩ := hok.chunk_inside hcut
    exact ⟨zone, hzone, ⟨i, hi, rfl⟩, hused, hheader, hrear, hsize⟩
  | @pages run size hrun husage hsize =>
    right
    have hpage : run.start * RT_MM_PAGE_SIZE / RT_MM_PAGE_SIZE = run.start :=
      Nat.mul_div_cancel _ (by decide)
    unfold FoundLarge
    simp only [hpage, husage, true_and]
    refine ⟨hsize, hinv.pages.apart (mem_append_right _ hrun), ?_⟩
    exact fun z zone hzone => hinv.zone_apart hzone hrun

theorem chunk_apart_pages (hzone : h.zones z = some zone)
    (hi : i < zone.zNmax) (hrun : run ∈ others) :
    zone.chunk i + zone.zChunksize ≤ run.start * RT_MM_PAGE_SIZE ∨
      run.start * RT_MM_PAGE_SIZE + run.page * RT_MM_PAGE_SIZE ≤ zone.chunk i := by
  obtain ⟨hheader, hrear⟩ := (hinv.ok z zone hzone).chunk_inside hi
  rw [hinv.config.zoneSize_eq] at hrear
  have hpages := hinv.zone_apart hzone hrun
  simp only [RtPageHead.behind, RT_MM_PAGE_SIZE] at *
  omega

theorem extents_apart (hb : Alive h others b) (hc : Alive h others c) (hne : b.ptr ≠ c.ptr) :
    b.ptr + h.extent b.ptr ≤ c.ptr ∨ c.ptr + h.extent c.ptr ≤ b.ptr := by
  cases hb with
  | @chunk z i size zone hzone hi hused hsize =>
    have hok := hinv.ok z zone hzone
    have hcut := lt_of_le_of_lt hi hok.uindex_lt
    rw [hinv.extent_chunk hzone hcut]
    cases hc with
    | @chunk y j size' zone' hzone' hj hused' hsize' =>
      have hok' := hinv.ok y zone' hzone'
      have hcut' := lt_of_le_of_lt hj hok'.uindex_lt
      rw [hinv.extent_chunk hzone' hcut']
      by_cases hzy : z = y
      · subst hzy
        rw [hzone] at hzone'
        obtain rfl := some.inj hzone'
        obtain hlt | heq | hgt := lt_trichotomy i j
        · exact .inl (ZoneOk.chunk_apart hlt)
        · exact absurd (heq ▸ rfl) hne
        · exact .inr (ZoneOk.chunk_apart hgt)
      · have hpages := behind_le_or_le (b := h.zoneRun z) (c := h.zoneRun y)
          hinv.zonePageCnt_pos hinv.zonePageCnt_pos fun _ hpz hpy =>
            hzy (hinv.zone_eq ((hinv.zone z).mpr ⟨zone, hzone⟩)
              ((hinv.zone y).mpr ⟨zone', hzone'⟩) hpz hpy)
        obtain ⟨hheader, hrear⟩ := hok.chunk_inside hcut
        obtain ⟨hheader', hrear'⟩ := hok'.chunk_inside hcut'
        rw [hinv.config.zoneSize_eq] at hrear hrear'
        simp only [zoneRun, RtPageHead.behind, RT_MM_PAGE_SIZE] at *
        lia
    | @pages run size' hrun husage hsize' =>
      rw [extent_pages husage]
      exact hinv.chunk_apart_pages hzone hcut hrun
  | @pages run size hrun husage hsize =>
    rw [extent_pages husage]
    cases hc with
    | @chunk y j size' zone' hzone' hj hused' hsize' =>
      have hcut := lt_of_le_of_lt hj (hinv.ok y zone' hzone').uindex_lt
      rw [hinv.extent_chunk hzone' hcut]
      exact (hinv.chunk_apart_pages hzone' hcut hrun).symm
    | @pages run' size' hrun' husage' hsize' =>
      rw [extent_pages husage']
      have hmem := mem_append_right (zs.map h.zoneRun) hrun
      have hmem' := mem_append_right (zs.map h.zoneRun) hrun'
      have hpages := behind_le_or_le (hinv.pages.allocated_pos run hmem)
        (hinv.pages.allocated_pos run' hmem') fun p hp hp' =>
          hne (hinv.pages.eq_of_common_page hmem hmem' hp hp' ▸ rfl)
      simp only [RtPageHead.behind, RT_MM_PAGE_SIZE] at *
      lia

end

end HeapInv

theorem SlabInv.accounting {s : SlabState}
    (hinv : SlabInv start len s.heap s.live zs others) : SlabAccounting s where
  nfree z zone hzone := (hinv.heap.ok z zone hzone).nfree
  linked z zone hzone zi := by
    by_cases hindex : zi = zone.zZoneindex
    · rw [hindex, hinv.heap.linked z zone hzone]
      simp
    · exact iff_of_false (hinv.heap.not_listed hzone hindex) fun hlinked => hindex hlinked.1
  free_cnt := hinv.heap.free_cnt
  found b hb := hinv.heap.found (hinv.alive b hb)
  disjoint := by
    have hdistinct : s.live.Pairwise fun b c => b.ptr ≠ c.ptr := pairwise_map.mp hinv.distinct
    apply hdistinct.imp_of_mem
    exact fun hb hc hne => hinv.heap.extents_apart (hinv.alive _ hb) (hinv.alive _ hc) hne

/-- In every run in which no request lacks a zone the accounts hold, and each legal call
returns. -/
theorem slab_accounting {beginAddr endAddr : ℕ} {s : SlabState}
    (hreach : (slabSystem beginAddr endAddr).Reachable (fun s call => ¬call.LacksZone s.heap) s) :
    SlabAccounting s ∧ ∀ call, call.Legal s.live → ∃ s', s.execute call = some s' := by
  have hsem : s.heap.heapSem ≠ 0 := by
    rw [heapSem_of_reachable hreach]
    decide
  have hinv : s.heap.heapSem = 1 ∧
      ∃ start len zs others, SlabInv start len s.heap s.live zs others := by
    apply hreach.invariant (P := fun s => s.heap.heapSem = 1 ∧
      ∃ start len zs others, SlabInv start len s.heap s.live zs others)
    · intro s hinit
      obtain ⟨start, len, others, hinv⟩ := SlabInv.of_init hinit
      obtain ⟨-, -, -, hroom, -, memusage, hheap⟩ := hinit
      exact ⟨rtSystemHeapInit_heapSem hheap hroom, start, len, [], others, hinv⟩
    · rintro s call s' ⟨hone, start, len, zs, others, hinv⟩ hgets ⟨hlegal, hstep⟩
      obtain ⟨result, zs', others', hexecute, hinv'⟩ :=
        hinv.exists_execute (by rw [hone]; decide) hlegal
      unfold SlabState.execute at hstep
      rw [hexecute] at hstep
      obtain rfl := some.inj hstep
      exact ⟨((execute_heapSem_iff hexecute).mpr hgets).trans hone, start, len, zs', others', hinv'⟩
  obtain ⟨-, start, len, zs, others, hinv⟩ := hinv
  refine ⟨hinv.accounting, ?_⟩
  intro call hlegal
  obtain ⟨result, -, -, hexecute, -⟩ := hinv.exists_execute hsem hlegal
  exact ⟨_, map_eq_some_iff.mpr ⟨result, hexecute, rfl⟩⟩

def twentyPages : SlabHeap := { ninePages with rtPageList := [⟨33, 20⟩] }

theorem init_twentyPages : (slabSystem 0x20000 0x35000).init ⟨twentyPages, []⟩ := by
  refine ⟨by decide, by decide, by decide, by decide, rfl, fun _ => ⟨.free, 0⟩, ?_⟩
  have hstart : alignUp 0x20000 RT_MM_PAGE_SIZE = 0x20000 := by decide
  have hend : alignDown 0x35000 RT_MM_PAGE_SIZE = 0x35000 := by decide
  unfold rtSystemHeapInit
  rw [hstart, hend]
  rfl

theorem slab_accounting_of_sample_calls :
    ∃ s, (slabSystem 0x20000 0x35000).Reachable (fun s call => ¬call.LacksZone s.heap) s ∧
      s.live = [⟨0x31000, 9000⟩, ⟨0x21040, 24⟩] ∧
      SlabAccounting s ∧ ∀ call, call.Legal s.live → ∃ s', s.execute call = some s' := by
  have hrun : ([HeapCall.malloc 20, .malloc 24, .malloc 100, .free (some 0x21028),
      .realloc (some 0x29028) 9000].foldlM
        (fun s call => if call.Legal (SlabState.live s) ∧ ¬call.LacksZone s.heap then
          s.execute call else none) ⟨twentyPages, []⟩).map SlabState.live =
        some [⟨0x31000, 9000⟩, ⟨0x21040, 24⟩] := by decide
  obtain ⟨s, hs, hlive⟩ := map_eq_some_iff.mp hrun
  have hreach : (slabSystem 0x20000 0x35000).Reachable
      (fun s call => ¬call.LacksZone s.heap) s := by
    apply TransitionSystem.Reachable.foldlM _ (.start init_twentyPages) hs
    intro s call s' hstep
    split_ifs at hstep with hmeets
    exact ⟨hmeets.2, hmeets.1, hstep⟩
  exact ⟨s, hreach, hlive, slab_accounting hreach⟩

end RtThread.Slab
