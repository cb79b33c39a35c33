import RtThread.SlabModel

/-!
# Zones and pages of the slab heap

A zone is described by the chunks cut so far and the free ones among them; the heap is
described by the zones and the other runs of pages which are in use.  Each step of
`rt_malloc` and `rt_free` has a lemma which rebuilds this description.
-/

namespace RtThread.Slab

open Function List Word SlabHeap Nat

def chunkSize (zi : ℕ) : ℕ :=
  if zi < 16 then 8 * (zi + 1)
  else if zi < 24 then 16 * (zi - 7)
  else if zi < 32 then 32 * (zi - 15)
  else if zi < 40 then 64 * (zi - 23)
  else if zi < 48 then 128 * (zi - 31)
  else if zi < 56 then 256 * (zi - 39)
  else if zi < 64 then 512 * (zi - 47)
  else 1024 * (zi - 55)

theorem exists_alignUp_eq {n : ℕ} (k : ℕ) (hk : k ≤ 32) (hn : n + 2 ^ k ≤ 4294967296) :
    ∃ m, alignUp n (2 ^ k) = m * 2 ^ k ∧ n ≤ m * 2 ^ k ∧ m * 2 ^ k < n + 2 ^ k := by
  obtain ⟨m, hm⟩ : 2 ^ k ∣ alignUp n (2 ^ k) := dvd_alignUp hk
  rw [mul_comm] at hm
  exact ⟨m, hm, hm ▸ le_alignUp hk hn, hm ▸ alignUp_lt_add hk hn⟩

theorem mul_le_round {n m d : ℕ} (hd : d ∣ 1024) (hlt : m * d < n + d) :
    m * d ≤ (n + 1023) / 1024 * 1024 := by
  obtain ⟨c, hc⟩ := hd
  have hround : (n + 1023) / 1024 * 1024 = ((n + 1023) / 1024 * c) * d := by
    rw [hc]
    ring
  have hmul : m * d < ((n + 1023) / 1024 * c + 1) * d := by
    rw [add_mul, one_mul, ← hround]
    omega
  rw [hround]
  exact Nat.mul_le_mul_right d (Nat.lt_succ_iff.mp (Nat.lt_of_mul_lt_mul_right hmul))

structure Indexed (n zi size : ℕ) : Prop where
  index_lt : zi < 72
  size_eq : size = chunkSize zi
  le_size : n ≤ size
  size_le : size ≤ (n + 1023) / 1024 * 1024

theorem Indexed.of_range {n : ℕ} (k low : ℕ) (index : ℕ → ℕ) (hk : k ≤ 10)
    (hlow : low * 2 ^ k < n + 2 ^ k) (hn : n < 16 * 2 ^ k)
    (hindex : ∀ m ≤ 16, low ≤ m → index m < 72 ∧ m * 2 ^ k = chunkSize (index m)) :
    Indexed n (index (alignUp n (2 ^ k) / 2 ^ k)) (alignUp n (2 ^ k)) := by
  have hpow : 2 ^ k ≤ 2 ^ 10 := Nat.pow_le_pow_right (by decide) hk
  have hpos : 0 < 2 ^ k := Nat.two_pow_pos k
  obtain ⟨m, hm, hle, hlt⟩ := exists_alignUp_eq (n := n) k (by lia) (by lia)
  have hfrom : low ≤ m := by
    have : low * 2 ^ k < (m + 1) * 2 ^ k := by
      rw [add_mul]
      lia
    exact Nat.lt_succ_iff.mp (Nat.lt_of_mul_lt_mul_right this)
  have hto : m ≤ 16 := by
    have : m * 2 ^ k < 17 * 2 ^ k := by lia
    exact Nat.lt_succ_iff.mp (Nat.lt_of_mul_lt_mul_right this)
  obtain ⟨hzone, hsize⟩ := hindex m hto hfrom
  rw [hm, Nat.mul_div_cancel m hpos]
  exact ⟨hzone, hsize, hle, mul_le_round (pow_dvd_pow 2 hk) hlt⟩

/-- The zone index of a size names the smallest chunk which holds it. -/
theorem zoneindex_spec {n : ℕ} (hpos : 0 < n) (hn : n < 16384) :
    Indexed n (zoneindex n).1 (zoneindex n).2 := by
  unfold zoneindex
  split_ifs with h1 h2 h3 h4 h5 h6 h7
  · exact Indexed.of_range 3 1 (· - 1) (by decide) (by lia) h1 (by decide)
  · exact Indexed.of_range 4 8 (· + 7) (by decide) (by lia) h2 (by decide)
  · exact Indexed.of_range 5 8 (· + 15) (by decide) (by lia) h4 (by decide)
  · exact Indexed.of_range 6 8 (· + 23) (by decide) (by lia) h5 (by decide)
  · exact Indexed.of_range 7 8 (· + 31) (by decide) (by lia) h6 (by decide)
  · exact Indexed.of_range 8 8 (· + 39) (by decide) (by lia) h7 (by decide)
  · exact Indexed.of_range 9 8 (· + 47) (by decide) (by lia) h3 (by decide)
  · exact Indexed.of_range 10 8 (· + 55) (by decide) (by lia) hn (by decide)

theorem zoneOffset_bounds :
    ∀ zi < 72, 8 ≤ chunkSize zi ∧ sizeofSlabZone ≤ zoneOffset (chunkSize zi) ∧
      zoneOffset (chunkSize zi) ≤ chunkSize zi + 40 := by
  decide

def SlabZone.chunk (zone : SlabZone) (i : ℕ) : ℕ := zone.zBaseptr + i * zone.zChunksize

/-- The chunks of a zone lie in it and are counted. -/
structure ZoneOk (zoneSize z : ℕ) (zone : SlabZone) : Prop where
  index_lt : zone.zZoneindex < 72
  chunksize : zone.zChunksize = chunkSize zone.zZoneindex
  chunksize_pos : 0 < zone.zChunksize
  header : z * RT_MM_PAGE_SIZE + sizeofSlabZone ≤ zone.zBaseptr
  rear : zone.zBaseptr + zone.zNmax * zone.zChunksize ≤ z * RT_MM_PAGE_SIZE + zoneSize
  two_le : 2 ≤ zone.zNmax
  uindex_lt : zone.zUindex < zone.zNmax
  nfree : zone.zNfree = (zone.zNmax - 1 - zone.zUindex) + zone.zFreechunk.length
  free_nodup : zone.zFreechunk.Nodup
  free_cut : ∀ p ∈ zone.zFreechunk, ∃ i ≤ zone.zUindex, p = zone.chunk i

namespace ZoneOk

variable {zoneSize z i j p zi : ℕ} {zone : SlabZone}

theorem chunk_inj (hzone : ZoneOk zoneSize z zone) (heq : zone.chunk i = zone.chunk j) : i = j := by
  have hmul : i * zone.zChunksize = j * zone.zChunksize := add_left_cancel heq
  exact eq_of_mul_eq_mul_right hzone.chunksize_pos hmul

theorem chunk_apart (hlt : i < j) : zone.chunk i + zone.zChunksize ≤ zone.chunk j := by
  have hle : (i + 1) * zone.zChunksize ≤ j * zone.zChunksize := mul_le_mul_right _ hlt
  rw [add_mul, one_mul] at hle
  unfold SlabZone.chunk
  omega

section

variable (hzone : ZoneOk zoneSize z zone)
include hzone

theorem chunk_inside (hi : i < zone.zNmax) :
    z * RT_MM_PAGE_SIZE + sizeofSlabZone ≤ zone.chunk i ∧
      zone.chunk i + zone.zChunksize ≤ z * RT_MM_PAGE_SIZE + zoneSize := by
  have hle : (i + 1) * zone.zChunksize ≤ zone.zNmax * zone.zChunksize := mul_le_mul_right _ hi
  rw [add_mul, one_mul] at hle
  have hheader := hzone.header
  have hrear := hzone.rear
  unfold SlabZone.chunk
  omega

theorem mem_free_of_full (hfull : zone.zNfree = zone.zNmax)
    (hi : i ≤ zone.zUindex) : zone.chunk i ∈ zone.zFreechunk := by
  have hsubset : zone.zFreechunk ⊆ (List.range (zone.zUindex + 1)).map zone.chunk := by
    intro p hp
    obtain ⟨j, hj, rfl⟩ := hzone.free_cut p hp
    exact mem_map_of_mem (mem_range.mpr (lt_succ_of_le hj))
  have hlength : ((List.range (zone.zUindex + 1)).map zone.chunk).length ≤
      zone.zFreechunk.length := by
    have hnfree := hzone.nfree
    rw [length_map, length_range]
    omega
  have hperm := (subperm_of_subset hzone.free_nodup hsubset).perm_of_length_le hlength
  apply hperm.mem_iff.mpr
  exact mem_map_of_mem (mem_range.mpr (lt_succ_of_le hi))

theorem nfree_nonneg : 0 ≤ zone.zNfree := by
  have hnfree := hzone.nfree
  have hlt := hzone.uindex_lt
  omega

end

theorem fresh (hzi : zi < 72) (hsmall : chunkSize zi * 4 ≤ zoneSize)
    (hmin : 512 ≤ zoneSize) : ZoneOk zoneSize z (freshZone zoneSize zi (chunkSize zi) z) := by
  obtain ⟨height, hheader, hoffset⟩ := zoneOffset_bounds zi hzi
  have htwo : 2 ≤ (zoneSize - zoneOffset (chunkSize zi)) / chunkSize zi := by
    rw [le_div_iff_mul_le (by lia)]
    lia
  constructor
  · exact hzi
  · rfl
  · exact lt_of_lt_of_le (by decide) height
  · exact Nat.add_le_add_left hheader _
  · have hdiv := div_mul_le_self (zoneSize - zoneOffset (chunkSize zi)) (chunkSize zi)
    simp only [freshZone]
    lia
  · exact htwo
  · exact lt_of_lt_of_le two_pos htwo
  · simp [freshZone]
  · exact nodup_nil
  · simp [freshZone]

section

variable (hzone : ZoneOk zoneSize z zone)
include hzone

theorem cut (hmore : zone.zUindex + 1 ≠ zone.zNmax) :
    ZoneOk zoneSize z { zone with zNfree := zone.zNfree - 1, zUindex := zone.zUindex + 1 } :=
  { hzone with
    uindex_lt := Nat.lt_of_le_of_ne hzone.uindex_lt hmore
    nfree := by
      have hnfree := hzone.nfree
      push_cast
      omega
    free_cut p hp := by
      obtain ⟨i, hi, heq⟩ := hzone.free_cut p hp
      exact ⟨i, le_succ_of_le hi, heq⟩ }

theorem pop {more : List ℕ} (hfree : zone.zFreechunk = p :: more) :
    ZoneOk zoneSize z { zone with zNfree := zone.zNfree - 1, zFreechunk := more } :=
  { hzone with
    nfree := by
      have hnfree := hzone.nfree
      rw [hfree, length_cons] at hnfree
      push_cast at hnfree
      simp only
      omega
    free_nodup := (nodup_cons.mp (hfree ▸ hzone.free_nodup)).2
    free_cut q hq := hzone.free_cut q (hfree ▸ mem_cons_of_mem _ hq) }

theorem push (hi : i ≤ zone.zUindex) (hused : zone.chunk i ∉ zone.zFreechunk) :
    ZoneOk zoneSize z { zone with
      zFreechunk := zone.chunk i :: zone.zFreechunk, zNfree := zone.zNfree + 1 } :=
  { hzone with
    nfree := by
      have hnfree := hzone.nfree
      simp only [length_cons]
      push_cast
      omega
    free_nodup := nodup_cons.mpr ⟨hused, hzone.free_nodup⟩
    free_cut q hq := by
      obtain rfl | hq := mem_cons.mp hq
      · exact ⟨i, hi, rfl⟩
      · exact hzone.free_cut q hq }

theorem setMagic (magic : ℤ) : ZoneOk zoneSize z { zone with zMagic := magic } :=
  ⟨hzone.index_lt, hzone.chunksize, hzone.chunksize_pos, hzone.header, hzone.rear,
    hzone.two_le, hzone.uindex_lt, hzone.nfree, hzone.free_nodup, hzone.free_cut⟩

end

end ZoneOk

structure ZoneConfig (h : SlabHeap) : Prop where
  zoneSize_eq : h.zoneSize = h.zonePageCnt * RT_MM_PAGE_SIZE
  zoneSize_min : 512 ≤ h.zoneSize
  zoneLimit_le : h.zoneLimit * 4 ≤ h.zoneSize
  zoneLimit_max : h.zoneLimit ≤ 16384
  zoneLimit_dvd : 1024 ∣ h.zoneLimit

def SlabHeap.zoneRun (h : SlabHeap) (z : ℕ) : RtPageHead := ⟨z, h.zonePageCnt⟩

/-- Zones, usage table and page list agree. -/
structure HeapInv (start len : ℕ) (h : SlabHeap) (zs : List ℕ) (others : List RtPageHead) :
    Prop where
  config : ZoneConfig h
  pages : Partitioned start len h.rtPageList (zs.map h.zoneRun ++ others)
  zone : ∀ z, z ∈ zs ↔ ∃ zone, h.zones z = some zone
  ok : ∀ z zone, h.zones z = some zone → ZoneOk h.zoneSize z zone
  usage : ∀ z ∈ zs, ∀ off < h.zonePageCnt, h.memusage (z + off) = ⟨.small, off⟩
  linked : ∀ z zone, h.zones z = some zone →
    (z ∈ h.zoneArray zone.zZoneindex ↔ 0 < zone.zNfree ∧ z ∉ h.zoneFree)
  listed : ∀ zi, ∀ z ∈ h.zoneArray zi, ∃ zone, h.zones z = some zone ∧ zone.zZoneindex = zi
  array_nodup : ∀ zi, (h.zoneArray zi).Nodup
  free_full : ∀ z ∈ h.zoneFree, ∃ zone, h.zones z = some zone ∧ zone.zNfree = zone.zNmax
  free_nodup : h.zoneFree.Nodup
  free_cnt : h.zoneFreeCnt = h.zoneFree.length

namespace HeapInv

variable {start len : ℕ} {h : SlabHeap} {zs : List ℕ} {others : List RtPageHead}
  {z zi size p npages : ℕ} {zone zone' : SlabZone} {run : RtPageHead}

section

variable (hinv : HeapInv start len h zs others)
include hinv

theorem frame (sem : BitVec 16) (used max : ℕ) :
    HeapInv start len { h with heapSem := sem, usedMem := used, maxMem := max } zs others :=
  ⟨⟨hinv.config.zoneSize_eq, hinv.config.zoneSize_min, hinv.config.zoneLimit_le,
      hinv.config.zoneLimit_max, hinv.config.zoneLimit_dvd⟩,
    hinv.pages, hinv.zone, hinv.ok, hinv.usage, hinv.linked, hinv.listed, hinv.array_nodup,
    hinv.free_full, hinv.free_nodup, hinv.free_cnt⟩

theorem zonePageCnt_pos : 0 < h.zonePageCnt := by
  have heq := hinv.config.zoneSize_eq
  have hmin := hinv.config.zoneSize_min
  rw [heq] at hmin
  exact Nat.pos_of_mul_pos_right (Nat.lt_of_lt_of_le (by decide) hmin)

theorem chunkSize_le (hindexed : Indexed size zi (chunkSize zi))
    (hsmall : size < h.zoneLimit) : chunkSize zi * 4 ≤ h.zoneSize := by
  obtain ⟨c, hc⟩ := hinv.config.zoneLimit_dvd
  have hle := hindexed.size_le
  have hlimit := hinv.config.zoneLimit_le
  omega

theorem zone_disjoint (hz : z ∈ zs) (hrun : run ∈ others)
    (hzone : z ≤ p ∧ p < z + h.zonePageCnt) : ¬(run.start ≤ p ∧ p < run.behind) := by
  intro hmem
  have hnodup := hinv.pages.partition.nodup_iff.mpr nodup_range'
  have hused := (nodup_append.mp hnodup).2.1
  unfold pagesOf at hused
  rw [flatMap_append] at hused
  exact (nodup_append.mp hused).2.2 p
    (mem_pagesOf.mpr ⟨h.zoneRun z, mem_map_of_mem hz, hzone⟩) p
    (mem_pagesOf.mpr ⟨run, hrun, hmem⟩) rfl

theorem zone_eq {y : ℕ} (hz : z ∈ zs) (hy : y ∈ zs)
    (hpz : z ≤ p ∧ p < z + h.zonePageCnt) (hpy : y ≤ p ∧ p < y + h.zonePageCnt) : z = y := by
  have hrun : h.zoneRun z = h.zoneRun y := hinv.pages.eq_of_common_page
    (mem_append_left _ (mem_map_of_mem hz))
    (mem_append_left _ (mem_map_of_mem hy)) hpz hpy
  exact congrArg RtPageHead.start hrun

end

theorem change (list free : List ℕ) (cnt : ℤ) (hinv : HeapInv start len h zs others)
    (hz : h.zones z = some zone) (hok : ZoneOk h.zoneSize z zone')
    (hother : ∀ zi ≠ zone'.zZoneindex, z ∉ h.zoneArray zi)
    (hlist : list.Nodup ∧ ∀ y ≠ z, y ∈ list ↔ y ∈ h.zoneArray zone'.zZoneindex)
    (hfree : free.Nodup ∧ ∀ y ≠ z, y ∈ free ↔ y ∈ h.zoneFree)
    (hlinked : z ∈ list ↔ 0 < zone'.zNfree ∧ z ∉ free)
    (hfull : z ∈ free → zone'.zNfree = zone'.zNmax) (hcnt : cnt = free.length) : HeapInv start len
      { (h.setZone z zone').setArray zone'.zZoneindex list with
        zoneFree := free, zoneFreeCnt := cnt } zs others := by
  obtain ⟨hlistNodup, hlistOther⟩ := hlist
  obtain ⟨hfreeNodup, hfreeOther⟩ := hfree
  have hzones : ∀ y ≠ z, (h.setZone z zone').zones y = h.zones y :=
    fun y hy => update_of_ne hy _ _
  have hself : (h.setZone z zone').zones z = some zone' := update_self _ _ _
  constructor
  · exact ⟨hinv.config.zoneSize_eq, hinv.config.zoneSize_min, hinv.config.zoneLimit_le,
      hinv.config.zoneLimit_max, hinv.config.zoneLimit_dvd⟩
  · exact hinv.pages
  · intro y
    by_cases hy : y = z
    · rw [hy, hinv.zone]
      exact ⟨fun _ => ⟨zone', hself⟩, fun _ => ⟨zone, hz⟩⟩
    · simp only [setArray, hzones y hy]
      exact hinv.zone y
  · intro y record hrecord
    simp only [setArray] at hrecord
    by_cases hy : y = z
    · rw [hy, hself] at hrecord
      exact Option.some.inj hrecord ▸ hy ▸ hok
    · rw [hzones y hy] at hrecord
      exact hinv.ok y record hrecord
  · exact hinv.usage
  · intro y record hrecord
    simp only [setArray] at hrecord ⊢
    by_cases hy : y = z
    · rw [hy, hself] at hrecord
      obtain rfl := Option.some.inj hrecord
      rw [hy, update_self]
      exact hlinked
    · rw [hzones y hy] at hrecord
      rw [hfreeOther y hy, ← hinv.linked y record hrecord]
      by_cases hindex : record.zZoneindex = zone'.zZoneindex
      · rw [hindex, update_self]
        exact hlistOther y hy
      · rw [update_of_ne hindex]
        rfl
  · intro zi y hy
    simp only [setArray] at hy ⊢
    by_cases heq : y = z
    · subst heq
      by_cases hzi : zi = zone'.zZoneindex
      · exact ⟨zone', hself, hzi.symm⟩
      · rw [update_of_ne hzi] at hy
        exact absurd hy (hother zi hzi)
    · rw [hzones y heq]
      apply hinv.listed zi y
      by_cases hzi : zi = zone'.zZoneindex
      · rw [hzi, update_self] at hy
        exact hzi ▸ (hlistOther y heq).mp hy
      · rw [update_of_ne hzi] at hy
        exact hy
  · intro zi
    simp only [setArray]
    by_cases hzi : zi = zone'.zZoneindex
    · rw [hzi, update_self]
      exact hlistNodup
    · rw [update_of_ne hzi]
      exact hinv.array_nodup zi
  · intro y hy
    simp only [setArray] at hy ⊢
    by_cases heq : y = z
    · subst heq
      exact ⟨zone', hself, hfull hy⟩
    · rw [hzones y heq]
      exact hinv.free_full y ((hfreeOther y heq).mp hy)
  · exact hfreeNodup
  · exact hcnt

section

variable (hinv : HeapInv start len h zs others)
include hinv

theorem not_listed (hz : h.zones z = some zone)
    (hne : zi ≠ zone.zZoneindex) : z ∉ h.zoneArray zi := by
  intro hmem
  obtain ⟨record, hrecord, hindex⟩ := hinv.listed zi z hmem
  rw [hz] at hrecord
  exact hne (hindex ▸ Option.some.inj hrecord ▸ rfl)

theorem setZone (hz : h.zones z = some zone)
    (hok : ZoneOk h.zoneSize z zone') (hindex : zone'.zZoneindex = zone.zZoneindex)
    (hmem : z ∈ h.zoneArray zone.zZoneindex)
    (hpos : 0 < zone'.zNfree) : HeapInv start len (h.setZone z zone') zs others := by
  have hnotfree := ((hinv.linked z zone hz).mp hmem).2
  have hchanged := change (h.zoneArray zone'.zZoneindex) h.zoneFree h.zoneFreeCnt hinv hz hok
    (fun zi hne => hinv.not_listed hz (hindex ▸ hne))
    ⟨hinv.array_nodup _, fun _ _ => Iff.rfl⟩ ⟨hinv.free_nodup, fun _ _ => Iff.rfl⟩
    (iff_of_true (hindex ▸ hmem) ⟨hpos, hnotfree⟩)
    (fun hfree => absurd hfree hnotfree) hinv.free_cnt
  have hsame : update h.zoneArray zone'.zZoneindex (h.zoneArray zone'.zZoneindex) =
      h.zoneArray := update_eq_self _ _
  simp only [SlabHeap.setArray, SlabHeap.setZone, hsame] at hchanged
  exact hchanged

theorem unlink {rest : List ℕ} (hz : h.zones z = some zone)
    (hok : ZoneOk h.zoneSize z zone') (hindex : zone'.zZoneindex = zone.zZoneindex)
    (harray : h.zoneArray zone.zZoneindex = z :: rest) (hzero : zone'.zNfree = 0) :
    HeapInv start len ((h.setArray zone.zZoneindex rest).setZone z zone') zs others := by
  have hmem : z ∈ h.zoneArray zone.zZoneindex := harray ▸ mem_cons_self
  have hnotfree := ((hinv.linked z zone hz).mp hmem).2
  have hnodup := hinv.array_nodup zone.zZoneindex
  rw [harray, nodup_cons] at hnodup
  have hchanged := change rest h.zoneFree h.zoneFreeCnt hinv hz hok
    (fun zi hne => hinv.not_listed hz (hindex ▸ hne))
    ⟨hnodup.2, fun y hy => by simp [hindex, harray, hy]⟩
    ⟨hinv.free_nodup, fun _ _ => Iff.rfl⟩
    (iff_of_false hnodup.1 (fun hlinked => absurd hlinked.1 (by omega)))
    (fun hfree => absurd hfree hnotfree) hinv.free_cnt
  rw [hindex] at hchanged
  exact hchanged

theorem taken_disjoint {r : RtPageHead} {o : ℕ}
    (hpos : 0 < npages) (hfound : (takePages npages h.rtPageList).1 = some p)
    (hrun : r ∈ zs.map h.zoneRun ++ others)
    (hoff : o < npages) : ¬(r.start ≤ p + o ∧ p + o < r.behind) := by
  intro hmem
  have hnodup := (hinv.pages.alloc hpos hfound).partition.nodup_iff.mpr nodup_range'
  have hused := (nodup_append.mp hnodup).2.1
  rw [pagesOf_cons] at hused
  apply (nodup_append.mp hused).2.2 (p + o) _ (p + o) _ rfl
  · exact mem_range'_1.mpr ⟨Nat.le_add_right _ _, Nat.add_lt_add_left hoff p⟩
  · exact mem_pagesOf.mpr ⟨r, hrun, hmem⟩

theorem not_mem_of_taken {o : ℕ} (hpos : 0 < npages)
    (hfound : (takePages npages h.rtPageList).1 = some p) (hz : z ∈ zs)
    (hoff : o < npages) : ¬(z ≤ p + o ∧ p + o < z + h.zonePageCnt) :=
  hinv.taken_disjoint hpos hfound (r := h.zoneRun z)
    (mem_append_left _ (mem_map_of_mem hz)) hoff

end

theorem addLarge (kup : Memusage) (hinv : HeapInv start len h zs others) (hpos : 0 < npages)
    (hfound : (takePages npages h.rtPageList).1 = some p) : HeapInv start len
      ({ h with rtPageList := (takePages npages h.rtPageList).2 }.setUsage p kup) zs
      (⟨p, npages⟩ :: others) := by
  constructor
  · exact ⟨hinv.config.zoneSize_eq, hinv.config.zoneSize_min, hinv.config.zoneLimit_le,
      hinv.config.zoneLimit_max, hinv.config.zoneLimit_dvd⟩
  · exact (hinv.pages.alloc hpos hfound).perm perm_middle.symm
  · exact hinv.zone
  · exact hinv.ok
  · intro z hz off hoff
    have hoff' : off < h.zonePageCnt := hoff
    have hne : z + off ≠ p := by
      intro heq
      have htaken := hinv.not_mem_of_taken hpos hfound hz hpos
      omega
    simp only [SlabHeap.setUsage, update_of_ne hne]
    exact hinv.usage z hz off hoff'
  · exact hinv.linked
  · exact hinv.listed
  · exact hinv.array_nodup
  · exact hinv.free_full
  · exact hinv.free_nodup
  · exact hinv.free_cnt

theorem dropLarge (kup : Memusage) (hinv : HeapInv start len h zs others) (hrun : run ∈ others) :
    HeapInv start len
      ({ h with rtPageList := putPages run.start run.page h.rtPageList }.setUsage run.start kup)
      zs (others.erase run) := by
  have hperm := (perm_cons_erase hrun).append_left (zs.map h.zoneRun)
  have hpages := hinv.pages.perm (hperm.trans perm_middle)
  have hpos := hpages.allocated_pos run mem_cons_self
  constructor
  · exact ⟨hinv.config.zoneSize_eq, hinv.config.zoneSize_min, hinv.config.zoneLimit_le,
      hinv.config.zoneLimit_max, hinv.config.zoneLimit_dvd⟩
  · exact hpages.free
  · exact hinv.zone
  · exact hinv.ok
  · intro z hz off hoff
    have hoff' : off < h.zonePageCnt := hoff
    have hne : z + off ≠ run.start := by
      intro heq
      apply hinv.zone_disjoint hz hrun (p := run.start) (by omega)
      unfold RtPageHead.behind
      omega
    simp only [setUsage, update_of_ne hne]
    exact hinv.usage z hz off hoff'
  · exact hinv.linked
  · exact hinv.listed
  · exact hinv.array_nodup
  · exact hinv.free_full
  · exact hinv.free_nodup
  · exact hinv.free_cnt

theorem addZone (hinv : HeapInv start len h zs others)
    (hfound : (takePages h.zonePageCnt h.rtPageList).1 = some p) (hok : ZoneOk h.zoneSize p zone)
    (hfull : zone.zNfree = zone.zNmax) : HeapInv start len
      { (h.setZoneUsage p fun off => ⟨.small, off⟩).setZone p zone with
        rtPageList := (takePages h.zonePageCnt h.rtPageList).2
        zoneFree := p :: h.zoneFree
        zoneFreeCnt := h.zoneFreeCnt + 1 } (p :: zs) others := by
  have hpos := hinv.zonePageCnt_pos
  have hnotmem : p ∉ zs := by
    intro hp
    apply hinv.not_mem_of_taken hpos hfound hp hpos
    lia
  have hnone : h.zones p = none := by
    cases hzone : h.zones p with
    | none => rfl
    | some record => exact absurd ((hinv.zone p).mpr ⟨record, hzone⟩) hnotmem
  have hne : ∀ {y record}, h.zones y = some record → y ≠ p := by
    rintro y record hrecord rfl
    simp [hnone] at hrecord
  have hself : ((h.setZoneUsage p fun off => ⟨.small, off⟩).setZone p zone).zones p =
      some zone := update_self _ _ _
  have hzones : ∀ y ≠ p, ((h.setZoneUsage p fun off => ⟨.small, off⟩).setZone p zone).zones y =
      h.zones y := fun y hy => update_of_ne hy _ _
  have hnotlisted : ∀ zi, p ∉ h.zoneArray zi := by
    intro zi hp
    obtain ⟨record, hrecord, -⟩ := hinv.listed zi p hp
    exact hne hrecord rfl
  have hnotfree : p ∉ h.zoneFree := by
    intro hp
    obtain ⟨record, hrecord, -⟩ := hinv.free_full p hp
    exact hne hrecord rfl
  constructor
  · exact ⟨hinv.config.zoneSize_eq, hinv.config.zoneSize_min, hinv.config.zoneLimit_le,
      hinv.config.zoneLimit_max, hinv.config.zoneLimit_dvd⟩
  · exact hinv.pages.alloc hpos hfound
  · intro y
    by_cases hy : y = p
    · simp [hy, hself]
    · rw [mem_cons, hinv.zone, hzones y hy]
      simp [hy]
  · intro y record hrecord
    by_cases hy : y = p
    · rw [hy, hself] at hrecord
      exact Option.some.inj hrecord ▸ hy ▸ hok
    · rw [hzones y hy] at hrecord
      exact hinv.ok y record hrecord
  · intro y hy off hoff
    have hoff' : off < h.zonePageCnt := hoff
    simp only [SlabHeap.setZone, SlabHeap.setZoneUsage]
    obtain rfl | hy := mem_cons.mp hy
    · rw [if_pos ⟨by lia, by lia⟩, Nat.add_sub_cancel_left]
    · rw [if_neg, hinv.usage y hy off hoff']
      intro hmem
      apply hinv.not_mem_of_taken hpos hfound hy (o := y + off - p) (by lia)
      lia
  · intro y record hrecord
    by_cases hy : y = p
    · simp [hy, SlabHeap.setZone, SlabHeap.setZoneUsage, hnotlisted]
    · rw [hzones y hy] at hrecord
      simp only [setZoneUsage, mem_cons, hy, false_or]
      exact hinv.linked y record hrecord
  · intro zi y hy
    obtain ⟨record, hrecord, hindex⟩ := hinv.listed zi y hy
    exact ⟨record, (hzones y (hne hrecord)).trans hrecord, hindex⟩
  · exact hinv.array_nodup
  · intro y hy
    obtain rfl | hy := mem_cons.mp hy
    · exact ⟨zone, hself, hfull⟩
    · obtain ⟨record, hrecord, hrecordFull⟩ := hinv.free_full y hy
      exact ⟨record, (hzones y (hne hrecord)).trans hrecord, hrecordFull⟩
  · exact nodup_cons.mpr ⟨hnotfree, hinv.free_nodup⟩
  · simp [hinv.free_cnt]

theorem dropZone {rest : List ℕ} (hinv : HeapInv start len h zs others)
    (hfree : h.zoneFree = z :: rest) : HeapInv start len
      { h.setZoneUsage z fun _ => ⟨.free, 0⟩ with
        rtPageList := putPages z h.zonePageCnt h.rtPageList
        zones := update h.zones z none
        zoneFree := rest
        zoneFreeCnt := h.zoneFreeCnt - 1 } (zs.erase z) others := by
  obtain ⟨zone, hzone, -⟩ := hinv.free_full z (hfree ▸ mem_cons_self)
  have hz : z ∈ zs := (hinv.zone z).mpr ⟨zone, hzone⟩
  have hpos := hinv.zonePageCnt_pos
  have hfreeNodup := hinv.free_nodup
  rw [hfree, nodup_cons] at hfreeNodup
  have hmap : (zs.map h.zoneRun).Nodup := by
    have hnodup := hinv.pages.partition.nodup_iff.mpr nodup_range'
    have hused := (nodup_append.mp hnodup).2.1
    unfold pagesOf at hused
    rw [flatMap_append, flatMap_map] at hused
    apply Nodup.map_on _ _
    · intro y _ y' _ heq
      exact congrArg RtPageHead.start heq
    · apply ((nodup_flatMap.mp (nodup_append.mp hused).1).2).imp
      rintro y y' hdisjoint rfl
      have hmem : y ∈ (h.zoneRun y).pages := mem_pages.mpr ⟨le_rfl, Nat.lt_add_of_pos_right hpos⟩
      exact hdisjoint hmem hmem
  have hzsNodup : zs.Nodup := hmap.of_map
  have hne : ∀ {y}, y ∈ zs.erase z → y ≠ z := fun hy => (hzsNodup.mem_erase_iff.mp hy).1
  have hnotlisted : ∀ zi, z ∉ h.zoneArray zi := by
    intro zi hmem
    obtain ⟨record, hrecord, hindex⟩ := hinv.listed zi z hmem
    rw [← hindex, hinv.linked z record hrecord, hfree] at hmem
    exact hmem.2 mem_cons_self
  constructor
  · exact ⟨hinv.config.zoneSize_eq, hinv.config.zoneSize_min, hinv.config.zoneLimit_le,
      hinv.config.zoneLimit_max, hinv.config.zoneLimit_dvd⟩
  · have hperm := (((perm_cons_erase hz).map h.zoneRun).append_right others)
    exact (hinv.pages.perm hperm).free
  · intro y
    rw [hzsNodup.mem_erase_iff]
    by_cases hy : y = z
    · simp [hy]
    · simp only [update_of_ne hy]
      rw [← hinv.zone y]
      exact and_iff_right hy
  · intro y record hrecord
    by_cases hy : y = z
    · simp [hy] at hrecord
    · simp only [update_of_ne hy] at hrecord
      exact hinv.ok y record hrecord
  · intro y hy off hoff
    have hoff' : off < h.zonePageCnt := hoff
    have hmem := mem_of_mem_erase hy
    simp only [setZoneUsage]
    rw [if_neg, hinv.usage y hmem off hoff']
    intro hpage
    exact hne hy (hinv.zone_eq hmem hz ⟨le_add_right y off, by omega⟩ hpage)
  · intro y record hrecord
    by_cases hy : y = z
    · simp [hy] at hrecord
    · simp only [update_of_ne hy] at hrecord
      have hlinked := hinv.linked y record hrecord
      simp only [hfree, mem_cons, hy, false_or] at hlinked
      exact hlinked
  · intro zi y hy
    obtain ⟨record, hrecord, hindex⟩ := hinv.listed zi y hy
    have hyz : y ≠ z := fun heq => hnotlisted zi (heq ▸ hy)
    exact ⟨record, (update_of_ne hyz _ _).trans hrecord, hindex⟩
  · exact hinv.array_nodup
  · intro y hy
    obtain ⟨record, hrecord, hfull⟩ := hinv.free_full y (hfree ▸ mem_cons_of_mem z hy)
    have hyz : y ≠ z := fun heq => hfreeNodup.1 (heq ▸ hy)
    exact ⟨record, (update_of_ne hyz _ _).trans hrecord, hfull⟩
  · exact hfreeNodup.2
  · have hcnt := hinv.free_cnt
    rw [hfree, length_cons] at hcnt
    push_cast at hcnt
    simp only
    omega

end HeapInv

end RtThread.Slab
