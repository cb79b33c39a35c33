import RtThread.PageList

/-!
# The slab heap

Small requests are served from zones, each cut into chunks of one size; large requests get
pages.  The header of a zone is a record of its own, found under the page where the zone
begins, and the lists through `z_next` and `c_next` are lists of pages and of chunk
addresses.  What the callers keep in their chunks is not modelled.
-/

namespace RtThread.Slab

open Function Word

def RT_MM_PAGE_SIZE : ℕ := 4096

def RT_MM_PAGE_BITS : ℕ := 12

def ZALLOC_SLAB_MAGIC : ℤ := 0x51ab51ab

def ZALLOC_ZONE_LIMIT : ℕ := 16 * 1024

def ZALLOC_MIN_ZONE_SIZE : ℕ := 32 * 1024

def ZALLOC_MAX_ZONE_SIZE : ℕ := 128 * 1024

def ZONE_RELEASE_THRESH : ℤ := 2

def MIN_CHUNK_SIZE : ℕ := 8

/-- `sizeof(slab_zone)`: nine words. -/
def sizeofSlabZone : ℕ := 36

/-- `sizeof(struct memusage)`. -/
def sizeofMemusage : ℕ := 4

inductive PageType where
  | free
  | small
  | large
  deriving DecidableEq

structure Memusage where
  type : PageType
  size : ℕ
  deriving DecidableEq

structure SlabZone where
  zMagic : ℤ
  zNfree : ℤ
  zNmax : ℕ
  zBaseptr : ℕ
  zUindex : ℕ
  zChunksize : ℕ
  zZoneindex : ℕ
  zFreechunk : List ℕ
  deriving DecidableEq

/-- The heap; `zones` holds the zone headers by their page. -/
structure SlabHeap extends PageHeap where
  zones : ℕ → Option SlabZone
  zoneArray : ℕ → List ℕ
  zoneFree : List ℕ
  zoneFreeCnt : ℤ
  memusage : ℕ → Memusage
  usedMem : ℕ
  maxMem : ℕ
  zoneSize : ℕ
  zoneLimit : ℕ
  zonePageCnt : ℕ

namespace SlabHeap

def lock (s : SlabHeap) : Option SlabHeap :=
  s.toPageHeap.take.map fun pages => { s with toPageHeap := pages }

def unlock (s : SlabHeap) : SlabHeap :=
  { s with toPageHeap := s.toPageHeap.release }

def pageAlloc (s : SlabHeap) (npages : ℕ) : Option (SlabHeap × Option ℕ) :=
  (rtPageAlloc s.toPageHeap npages).map fun result =>
    ({ s with toPageHeap := result.1 }, result.2)

def pageFree (s : SlabHeap) (page npages : ℕ) : Option SlabHeap :=
  (rtPageFree s.toPageHeap page npages).map fun pages => { s with toPageHeap := pages }

def charge (s : SlabHeap) (size : ℕ) : SlabHeap :=
  { s with usedMem := add32 s.usedMem size, maxMem := max s.maxMem (add32 s.usedMem size) }

def credit (s : SlabHeap) (size : ℕ) : SlabHeap :=
  { s with usedMem := sub32 s.usedMem size }

def setZone (s : SlabHeap) (z : ℕ) (zone : SlabZone) : SlabHeap :=
  { s with zones := update s.zones z (some zone) }

def setArray (s : SlabHeap) (zi : ℕ) (list : List ℕ) : SlabHeap :=
  { s with zoneArray := update s.zoneArray zi list }

def setUsage (s : SlabHeap) (page : ℕ) (kup : Memusage) : SlabHeap :=
  { s with memusage := update s.memusage page kup }

/-- The loops over the `zone_page_cnt` records from `btokup(z)`. -/
def setZoneUsage (s : SlabHeap) (z : ℕ) (kup : ℕ → Memusage) : SlabHeap :=
  { s with
    memusage := fun page =>
      if z ≤ page ∧ page < z + s.zonePageCnt then kup (page - z) else s.memusage page }

end SlabHeap

def zoneindex (n : ℕ) : ℕ × ℕ :=
  if n < 128 then (alignUp n 8 / 8 - 1, alignUp n 8)
  else if n < 256 then (alignUp n 16 / 16 + 7, alignUp n 16)
  else if n < 8192 then
    if n < 512 then (alignUp n 32 / 32 + 15, alignUp n 32)
    else if n < 1024 then (alignUp n 64 / 64 + 23, alignUp n 64)
    else if n < 2048 then (alignUp n 128 / 128 + 31, alignUp n 128)
    else if n < 4096 then (alignUp n 256 / 256 + 39, alignUp n 256)
    else (alignUp n 512 / 512 + 47, alignUp n 512)
  else if n < 16384 then (alignUp n 1024 / 1024 + 55, alignUp n 1024)
  else (0, n)

def growZone (limsize : ℕ) : ℕ → ℕ → ℕ
  | 0, size => size
  | fuel + 1, size =>
    if size < ZALLOC_MAX_ZONE_SIZE ∧ size <<< 1 < limsize / 1024 then
      growZone limsize fuel (size <<< 1)
    else size

def rtSystemHeapInit (s : SlabHeap) (beginAddr endAddr : ℕ) : Option SlabHeap :=
  let heapStart := alignUp beginAddr RT_MM_PAGE_SIZE
  let heapEnd := alignDown endAddr RT_MM_PAGE_SIZE
  if heapEnd ≤ heapStart then some s
  else do
    let limsize := heapEnd - heapStart
    let npages := limsize / RT_MM_PAGE_SIZE
    let pages ← rtPageInit { s.toPageHeap with heapSem := 1 } (heapStart / RT_MM_PAGE_SIZE) npages
    let zoneSize := growZone limsize 2 ZALLOC_MIN_ZONE_SIZE
    let zoneLimit := if ZALLOC_ZONE_LIMIT < zoneSize / 4 then ZALLOC_ZONE_LIMIT else zoneSize / 4
    let s := { s with
      toPageHeap := pages
      zoneSize := zoneSize
      zoneLimit := zoneLimit
      zonePageCnt := zoneSize / RT_MM_PAGE_SIZE }
    let limsize := alignUp (npages * sizeofMemusage) RT_MM_PAGE_SIZE
    let (s, _) ← s.pageAlloc (limsize / RT_MM_PAGE_SIZE)
    some s

def mallocLarge (s : SlabHeap) (size : ℕ) : Option (SlabHeap × Option ℕ) := do
  let size := alignUp size RT_MM_PAGE_SIZE
  let (s, page) ← s.pageAlloc (size >>> RT_MM_PAGE_BITS)
  match page with
  | none => some (s, none)
  | some page =>
    let s := s.setUsage page ⟨.large, size >>> RT_MM_PAGE_BITS⟩
    let s ← s.lock
    some ((s.charge size).unlock, some (page * RT_MM_PAGE_SIZE))

def mallocFromZone (s : SlabHeap) (zi size z : ℕ) (rest : List ℕ) :
    Option (SlabHeap × Option ℕ) := do
  let zone ← s.zones z
  let nfree := zone.zNfree - 1
  let s := if nfree = 0 then s.setArray zi rest else s
  if zone.zUindex + 1 ≠ zone.zNmax then
    let zone := { zone with zNfree := nfree, zUindex := zone.zUindex + 1 }
    some (((s.setZone z zone).charge zone.zChunksize).unlock,
      some (zone.zBaseptr + zone.zUindex * size))
  else
    match zone.zFreechunk with
    | [] => none -- `z_freechunk` is `RT_NULL` and is read through
    | chunk :: more =>
      let zone := { zone with zNfree := nfree, zFreechunk := more }
      some (((s.setZone z zone).charge zone.zChunksize).unlock, some chunk)

def zoneOffset (size : ℕ) : ℕ :=
  if (size ||| (size - 1)) + 1 = size <<< 1 then alignUp sizeofSlabZone size
  else alignUp sizeofSlabZone MIN_CHUNK_SIZE

def freshZone (zoneSize zi size z : ℕ) : SlabZone where
  zMagic := ZALLOC_SLAB_MAGIC
  zNfree := ((zoneSize - zoneOffset size) / size : ℕ) - 1
  zNmax := (zoneSize - zoneOffset size) / size
  zBaseptr := z * RT_MM_PAGE_SIZE + zoneOffset size
  zUindex := 0
  zChunksize := size
  zZoneindex := zi
  zFreechunk := []

def mallocFreshZone (s : SlabHeap) (zi size z : ℕ) : SlabHeap × Option ℕ :=
  let zone := freshZone s.zoneSize zi size z
  let s := (s.setZone z zone).setArray zi (z :: s.zoneArray zi)
  ((s.charge zone.zChunksize).unlock, some (zone.zBaseptr + zone.zUindex * size))

def rtMalloc (s : SlabHeap) (size : ℕ) : Option (SlabHeap × Option ℕ) :=
  if size = 0 then some (s, none)
  else if s.zoneLimit ≤ size then mallocLarge s size
  else do
    let s ← s.lock
    let (zi, size) := zoneindex size
    match s.zoneArray zi with
    | z :: rest => mallocFromZone s zi size z rest
    | [] =>
      match s.zoneFree with
      | z :: rest =>
        let s := { s with zoneFree := rest, zoneFreeCnt := s.zoneFreeCnt - 1 }
        some (mallocFreshZone s zi size z)
      | [] =>
        let (s, page) ← s.unlock.pageAlloc (s.zoneSize / RT_MM_PAGE_SIZE)
        match page with
        | none => some (s.unlock, none) -- the label `fail`
        | some z =>
          let s ← s.lock
          some (mallocFreshZone (s.setZoneUsage z fun off => ⟨.small, off⟩) zi size z)

def releaseZone (s : SlabHeap) : Option SlabHeap :=
  match s.zoneFree with
  | [] => none
  | z :: rest =>
    let s := { s with
      zoneFree := rest
      zoneFreeCnt := s.zoneFreeCnt - 1
      zones := update s.zones z none }
    let s := s.setZoneUsage z fun _ => ⟨.free, 0⟩
    s.unlock.pageFree z (s.zoneSize / RT_MM_PAGE_SIZE)

def retireZone (s : SlabHeap) (z : ℕ) (zone : SlabZone) : Option SlabHeap :=
  if z ∈ s.zoneArray zone.zZoneindex then
    let s := s.setArray zone.zZoneindex ((s.zoneArray zone.zZoneindex).erase z)
    let s := s.setZone z { zone with zMagic := -1 }
    let s := { s with zoneFree := z :: s.zoneFree, zoneFreeCnt := s.zoneFreeCnt + 1 }
    if ZONE_RELEASE_THRESH < s.zoneFreeCnt then releaseZone s else some s.unlock
  else none -- the search runs off the end of the list

def freeChunk (s : SlabHeap) (ptr z : ℕ) : Option SlabHeap := do
  let zone ← s.zones z
  let relink := zone.zNfree = 0
  let zone := { zone with zFreechunk := ptr :: zone.zFreechunk, zNfree := zone.zNfree + 1 }
  let s := (s.setZone z zone).credit zone.zChunksize
  let s := if relink then
      s.setArray zone.zZoneindex (z :: s.zoneArray zone.zZoneindex) else s
  -- `z_next` is `RT_NULL` and `z` is the head of its list when it is alone there
  if zone.zNfree = zone.zNmax ∧ s.zoneArray zone.zZoneindex ≠ [z] then retireZone s z zone
  else some s.unlock

def freeLarge (s : SlabHeap) (page : ℕ) : Option SlabHeap := do
  let s ← s.lock
  let size := (s.memusage page).size
  let s := (s.setUsage page ⟨.large, 0⟩).credit (mul32 size RT_MM_PAGE_SIZE)
  s.unlock.pageFree page size

def rtFree (s : SlabHeap) : Option ℕ → Option SlabHeap
  | none => some s
  | some ptr =>
    let page := ptr / RT_MM_PAGE_SIZE
    if (s.memusage page).type = .large then freeLarge s page
    else do
      let s ← s.lock
      freeChunk s ptr (page - (s.memusage page).size)

def moveBlock (s : SlabHeap) (ptr size : ℕ) : Option (SlabHeap × Option ℕ) := do
  let (s, nptr) ← rtMalloc s size
  match nptr with
  | none => some (s, none)
  | some nptr =>
    let s ← rtFree s (some ptr)
    some (s, some nptr)

def rtRealloc (s : SlabHeap) (ptr : Option ℕ) (size : ℕ) : Option (SlabHeap × Option ℕ) :=
  match ptr with
  | none => rtMalloc s size
  | some ptr =>
    if size = 0 then (rtFree s (some ptr)).map fun s => (s, none)
    else
      let kup := s.memusage (ptr / RT_MM_PAGE_SIZE)
      match kup.type with
      | .large => moveBlock s ptr size
      | .small => do
          let zone ← s.zones (ptr / RT_MM_PAGE_SIZE - kup.size)
          let size := (zoneindex size).2
          if zone.zChunksize = size then some (s, some ptr)
          else moveBlock s ptr size
      | .free => some (s, none)

inductive HeapCall where
  | malloc (size : ℕ)
  | realloc (ptr : Option ℕ) (size : ℕ)
  | free (ptr : Option ℕ)

/-- One call; `none` is a call which waits for ever or goes through a bad pointer. -/
def HeapCall.execute (h : SlabHeap) : HeapCall → Option (SlabHeap × Option ℕ)
  | .malloc size => rtMalloc h size
  | .realloc ptr size => rtRealloc h ptr size
  | .free ptr => (rtFree h ptr).map fun h => (h, none)

structure Block where
  ptr : ℕ
  size : ℕ
  deriving DecidableEq

structure SlabState where
  heap : SlabHeap
  live : List Block

def forget (ptr : Option ℕ) (live : List Block) : List Block :=
  live.filter fun b => some b.ptr ≠ ptr

def HeapCall.live (live : List Block) (result : Option ℕ) : HeapCall → List Block
  | .malloc size => result.elim live fun p => ⟨p, size⟩ :: live
  | .realloc ptr size =>
    result.elim (if size = 0 then forget ptr live else live) fun p =>
      ⟨p, size⟩ :: forget ptr live
  | .free ptr => forget ptr live

def SlabState.execute (s : SlabState) (call : HeapCall) : Option SlabState :=
  (call.execute s.heap).map fun result => ⟨result.1, call.live s.live result.2⟩

def HeapCall.Legal (live : List Block) : HeapCall → Prop
  | .malloc size => size < 4294967296
  | .realloc ptr size => size < 4294967296 ∧ ∀ p ∈ ptr, p ∈ live.map Block.ptr
  | .free ptr => ∀ p ∈ ptr, p ∈ live.map Block.ptr

instance (live : List Block) : DecidablePred (HeapCall.Legal live)
  | .malloc size => inferInstanceAs (Decidable (size < 4294967296))
  | .realloc _ _ =>
    inferInstanceAs (Decidable (_ ∧ _))
  | .free _ => inferInstanceAs (Decidable (∀ p ∈ _, _))

def bootHeap (memusage : ℕ → Memusage) : SlabHeap where
  rtPageList := []
  heapSem := 0
  zones := fun _ => none
  zoneArray := fun _ => []
  zoneFree := []
  zoneFreeCnt := 0
  memusage := memusage
  usedMem := 0
  maxMem := 0
  zoneSize := 0
  zoneLimit := 0
  zonePageCnt := 0

def slabSystem (beginAddr endAddr : ℕ) : TransitionSystem SlabState HeapCall where
  init s := beginAddr < 4294967296 ∧ endAddr < 4294967296 ∧ 0 < alignUp beginAddr RT_MM_PAGE_SIZE ∧
    alignUp beginAddr RT_MM_PAGE_SIZE < alignDown endAddr RT_MM_PAGE_SIZE ∧
    s.live = [] ∧ ∃ memusage, rtSystemHeapInit (bootHeap memusage) beginAddr endAddr = some s.heap
  step s call s' := call.Legal s.live ∧ s.execute call = some s'

end RtThread.Slab
