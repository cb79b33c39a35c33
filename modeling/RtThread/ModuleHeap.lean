import RtThread.SlabModel

/-!
# The heap of an application module

`rt_module_malloc` takes the first free block which is long enough and cuts it, or asks for
pages; `rt_module_free` joins a block with its neighbours and gives whole pages back, which
`rt_module_free_page` takes out of the page table.  Addresses and sizes are counted in units of
`struct rt_mem_head`, which has 8 bytes.  The calls are made by the module itself.
-/

namespace RtThread.ModuleHeap

open Function Word
open Slab (RT_MM_PAGE_SIZE)

def PAGE_COUNT_MAX : ℕ := 256

def pageUnits : ℕ := RT_MM_PAGE_SIZE / 8

/-- `struct rt_mem_head` at an address. -/
structure Block where
  addr : ℕ
  size : ℕ
  deriving DecidableEq

/-- `struct rt_page_info` -/
structure PageInfo where
  pagePtr : ℕ
  npage : ℕ
  deriving DecidableEq

/-- The fields of `struct rt_module`, the semaphore, and the memory.  The headers are those of
the blocks linked from `mem_list`, in its order, and of the blocks handed out; a unit of the
memory with a header has no data.  `owned` is history: the pages obtained and not returned. -/
structure Module where
  memList : List Block
  live : List Block
  mem : ℕ → Option UInt64
  pageArray : ℕ → PageInfo
  pageCnt : ℕ
  modSem : ℕ
  owned : ℕ → Bool

def inRun (pagePtr npages p : ℕ) : Bool :=
  pagePtr / pageUnits ≤ p ∧ p < pagePtr / pageUnits + npages

namespace Module

/-- `rt_sem_take(&mod_sem, RT_WAITING_FOREVER)` -/
def take (s : Module) : Option Module :=
  if s.modSem = 0 then none else some { s with modSem := s.modSem - 1 }

def release (s : Module) : Module := { s with modSem := s.modSem + 1 }

def mark (s : Module) (header : Option ℕ) : Module :=
  match header with
  | none => s
  | some addr => { s with mem := update s.mem addr none }

def move (s : Module) (dst src n : ℕ) : Module :=
  { s with mem := fun a => if dst ≤ a ∧ a < dst + n then s.mem (src + (a - dst)) else s.mem a }

def header (s : Module) (addr : ℕ) : Option Block := s.live.find? fun b => b.addr + 1 = addr

def mallocPage (s : Module) (npages chunk : ℕ) : Option Module :=
  let s := { s with
    pageArray := update s.pageArray s.pageCnt ⟨chunk, npages⟩
    pageCnt := s.pageCnt + 1
    owned := fun p => s.owned p || inRun chunk npages p }
  if s.pageCnt ≤ PAGE_COUNT_MAX then some s else none

def freePage (s : Module) (pagePtr npages : ℕ) : Option Module :=
  let s := { s with owned := fun p => s.owned p && !inRun pagePtr npages p }
  match (List.range s.pageCnt).find? fun i => (s.pageArray i).pagePtr = pagePtr with
  | none => none
  | some i =>
    let page := s.pageArray i
    if page.npage = npages + 1 then
      some { s with
        pageArray := update s.pageArray i
          ⟨page.pagePtr + npages * pageUnits, page.npage - npages⟩
        pageCnt := pred32 s.pageCnt }
    else if page.npage = npages then
      some { s with
        pageArray := fun k =>
          if i ≤ k ∧ k < s.pageCnt - 1 then s.pageArray (k + 1)
          else if k = s.pageCnt - 1 then ⟨0, 0⟩
          else s.pageArray k
        -- the count goes down for the entry and once more for the call
        pageCnt := pred32 (s.pageCnt - 1) }
    else none

end Module

def nunitsOf (size : ℕ) : ℕ := add32 size 7 / 8 + 1

def npageOf (size : ℕ) : ℕ := add32 size 4103 / RT_MM_PAGE_SIZE

/-- What is made of a free list: the block which is handed out, what stays in the list, and the
address of a header which is new. -/
structure Found where
  block : Block
  list : List Block
  split : Option ℕ

def mallocScan (nunits : ℕ) : List Block → Option Found
  | [] => none
  | b :: rest =>
    if b.size > nunits then
      some ⟨⟨b.addr, nunits⟩, ⟨b.addr + nunits, b.size - nunits⟩ :: rest, some (b.addr + nunits)⟩
    else if b.size = nunits then some ⟨b, rest, none⟩
    else (mallocScan nunits rest).map fun f => { f with list := b :: f.list }

def insertPages (up : Block) : List Block → List Block
  | [] => [up]
  | b :: rest => if b.addr > up.addr + up.size then up :: b :: rest else b :: insertPages up rest

namespace Module

def handOut (s : Module) (f : Found) : Module :=
  { s with memList := f.list, live := f.block :: s.live }.mark f.split

def malloc (size : ℕ) : List (Option ℕ) → Module → Option (Option ℕ × Module)
  | pages, s => do
      let s ← s.take
      match mallocScan (nunitsOf size) s.memList with
      | some f => some (some (f.block.addr + 1), (s.handOut f).release)
      | none =>
        match pages with
        | [] => none
        | none :: _ => some (none, s)
        | some up :: pages => do
            let s ← s.mallocPage (npageOf size) up
            let s := { s with
              memList := insertPages ⟨up, npageOf size * pageUnits⟩ s.memList }.mark (some up)
            malloc size pages s.release

end Module

/-- What is made of a free list when a block is freed: the pages handed to `rt_module_free_page`
and the address of a header which is new. -/
structure Freed where
  list : List Block
  pages : Option (ℕ × ℕ)
  split : Option ℕ

def wholePages (size : ℕ) : ℕ := mul32 size 8 / RT_MM_PAGE_SIZE

def cutPages (b : Block) (rest : List Block) (withRest : Bool) : Freed :=
  let npage := wholePages b.size
  let nunits := npage * pageUnits
  if withRest then
    ⟨⟨b.addr + nunits, b.size - nunits⟩ :: rest, some (b.addr, npage), some (b.addr + nunits)⟩
  else ⟨rest, some (b.addr, npage), none⟩

/-- `b` ends where `n` begins, and takes in the next free block if that touches `n`. -/
def joinBelow (n b : Block) : List Block → Block × List Block
  | [] => (⟨b.addr, b.size + n.size⟩, [])
  | c :: rest =>
    if b.addr + (b.size + n.size) = c.addr then (⟨b.addr, b.size + (c.size + n.size)⟩, rest)
    else (⟨b.addr, b.size + n.size⟩, c :: rest)

def freeBelow (n b : Block) (rest : List Block) : Freed :=
  let (b, rest) := joinBelow n b rest
  if b.addr % pageUnits = 0 ∧ 0 < wholePages b.size then
    cutPages b rest (mul32 b.size 8 % RT_MM_PAGE_SIZE ≠ 0)
  else ⟨b :: rest, none, none⟩

def freeAbove (n b : Block) (rest : List Block) : Freed :=
  let n : Block := ⟨n.addr, b.size + n.size⟩
  if n.addr % pageUnits = 0 then
    if 0 < wholePages n.size then cutPages n rest (mul32 n.size 8 % RT_MM_PAGE_SIZE ≠ 0)
    else ⟨b :: rest, none, none⟩
  else ⟨n :: rest, none, none⟩

/-- `n` touches no free block.  The remainder is taken of units here, not of bytes. -/
def freeAlone (n : Block) (rest : List Block) : Freed :=
  if n.addr % pageUnits = 0 then
    if 0 < wholePages n.size then cutPages n rest (n.size % RT_MM_PAGE_SIZE ≠ 0)
    else ⟨rest, none, none⟩
  else ⟨n :: rest, none, none⟩

def freeWalk (n : Block) : List Block → Option Freed
  | [] => some (freeAlone n [])
  | b :: rest =>
    if ¬(0 < b.size ∧ (b.addr > n.addr ∨ b.addr + b.size ≤ n.addr)) then none
    else if b.addr + b.size = n.addr ∧ n.addr % pageUnits ≠ 0 then some (freeBelow n b rest)
    else if b.addr = n.addr + n.size then some (freeAbove n b rest)
    else if b.addr > n.addr + n.size then some (freeAlone n (b :: rest))
    else (freeWalk n rest).map fun f => { f with list := b :: f.list }

namespace Module

def free (s : Module) (addr : ℕ) : Option Module := do
  let n ← s.header addr
  let s ← s.take
  let f ← freeWalk n s.memList
  let s := { s with memList := f.list, live := s.live.erase n }.mark f.split
  match f.pages with
  | none => some s.release
  | some (pagePtr, npages) => (s.freePage pagePtr npages).map release

end Module

def growInto (b : Block) (nunits : ℕ) : List Block → Option (List Block × Option ℕ)
  | [] => none
  | p :: rest =>
    if p.size ≥ nunits - b.size ∧ p.addr = b.addr + b.size then
      if p.size = nunits - b.size then some (rest, none)
      else some (⟨b.addr + nunits, p.size + b.size - nunits⟩ :: rest, some (b.addr + nunits))
    else none

namespace Module

def reallocMoved (s : Module) (b : Block) (size : ℕ) (pages : List (Option ℕ)) :
    Option (Option ℕ × Module) := do
  let (p, s) ← malloc size pages s
  match p with
  | none => some (none, s)
  | some p => (free (s.move p (b.addr + 1) b.size) (b.addr + 1)).map fun s => (some p, s)

def realloc (s : Module) (ptr : Option ℕ) (size : ℕ) (pages : List (Option ℕ)) :
    Option (Option ℕ × Module) :=
  match ptr with
  | none => malloc size pages s
  | some addr =>
    if size = 0 then (free s addr).map fun s => (none, s)
    else do
      let b ← s.header addr
      let nunits := nunitsOf size
      if nunits ≤ b.size then
        if nunits = b.size then some (some addr, s)
        else
          let p : Block := ⟨b.addr + nunits, b.size - nunits⟩
          let s := { s with live := ⟨b.addr, nunits⟩ :: p :: s.live.erase b }.mark (some p.addr)
          (free s (p.addr + 1)).map fun s => (some (b.addr + 1), s)
      else
        match s.memList with
        -- `prev->next` is read through a null pointer
        | [] => none
        | prev :: rest =>
          match growInto b nunits rest with
          | some (rest, split) =>
            some (some (b.addr + 1), { s with
              memList := prev :: rest
              live := ⟨b.addr, nunits⟩ :: s.live.erase b }.mark split)
          | none => s.reallocMoved b size pages

end Module

inductive Call where
  | malloc (size : ℕ) (pages : List (Option ℕ))
  | realloc (ptr : Option ℕ) (size : ℕ) (pages : List (Option ℕ))
  | free (addr : ℕ)
  /-- The application writes into a block which it has. -/
  | store (addr : ℕ) (data : UInt64)

def FreshPages (npage : ℕ) : List (Option ℕ) → (ℕ → Bool) → Prop
  | [], _ => True
  | none :: _, _ => True
  | some up :: pages, owned =>
    up % pageUnits = 0 ∧ (∀ i < npage, owned (up / pageUnits + i) = false) ∧
      FreshPages npage pages fun p => owned p || inRun up npage p

def Call.Enabled (s : Module) : Call → Prop
  | .malloc size pages => 0 < size ∧ size < 4294967296 ∧ FreshPages (npageOf size) pages s.owned
  | .realloc ptr size pages =>
    size < 4294967296 ∧ FreshPages (npageOf size) pages s.owned ∧ match ptr with
      | none => 0 < size
      | some addr => ∃ b ∈ s.live, b.addr + 1 = addr
  | .free addr => ∃ b ∈ s.live, b.addr + 1 = addr
  | .store addr _ => ∃ b ∈ s.live, b.addr < addr ∧ addr < b.addr + b.size

def execute (s : Module) : Call → Option (Option ℕ × Module)
  | .malloc size pages => s.malloc size pages
  | .realloc ptr size pages => s.realloc ptr size pages
  | .free addr => (s.free addr).map fun s => (none, s)
  | .store addr data => some (none, { s with mem := update s.mem addr (some data) })

def heapSystem : TransitionSystem Module Call where
  init s := s.memList = [] ∧ s.live = [] ∧ s.pageCnt = 0 ∧ s.modSem = 1 ∧ ∀ p, s.owned p = false
  step s call s' := call.Enabled s ∧ ∃ reply, execute s call = some (reply, s')

end RtThread.ModuleHeap
