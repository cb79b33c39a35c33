import RtThread.ByteMemory
import RtThread.KernelDefs

/-!
# The small-memory heap

`mem.c` keeps the system heap as a chain of blocks.  Every block starts with a
`struct heap_mem` of twelve bytes: the 16-bit fields `magic` and `used`,
followed by the 32-bit offsets `next` and `prev`.  The model stores these
structures in the bytes of the heap itself, so that a write to a data area
which leaves its block destroys headers exactly as it does on the machine.

Pointers to headers are offsets from `heap_ptr`; pointers handed to the
application are addresses.  Both loops of the allocator are run with as much
fuel as the heap has bytes, and `none` stands for a loop that does not end.
-/

namespace RtThread.SmallMem

open Word

def heapMagic : ℕ := 0x1ea0

def minSize : ℕ := 12

/-- `RT_ALIGN(MIN_SIZE, RT_ALIGN_SIZE)`. -/
def minSizeAligned (a : AlignSize) : ℕ := rtAlign a minSize

/-- `RT_ALIGN(sizeof(struct heap_mem), RT_ALIGN_SIZE)`. -/
def sizeofStructMem (a : AlignSize) : ℕ := rtAlign a 12

structure HeapMem where
  magic : ℕ
  used : ℕ
  next : ℕ
  prev : ℕ
  deriving DecidableEq

/-- The static variables of `mem.c`; `memory i` is the byte `heap_ptr[i]`, and
`heapEnd` and `lfree` are offsets. -/
structure Heap where
  heapPtr : ℕ
  memory : Memory
  heapEnd : ℕ
  lfree : ℕ
  memSizeAligned : ℕ
  usedMem : ℕ
  maxMem : ℕ

namespace Heap

def header (h : Heap) (offset : ℕ) : HeapMem where
  magic := h.memory.load offset 2
  used := h.memory.load (offset + 2) 2
  next := h.memory.load (offset + 4) 4
  prev := h.memory.load (offset + 8) 4

def setMagic (h : Heap) (offset value : ℕ) : Heap :=
  { h with memory := h.memory.store offset 2 value }

def setUsed (h : Heap) (offset value : ℕ) : Heap :=
  { h with memory := h.memory.store (offset + 2) 2 value }

def setNext (h : Heap) (offset value : ℕ) : Heap :=
  { h with memory := h.memory.store (offset + 4) 4 value }

def setPrev (h : Heap) (offset value : ℕ) : Heap :=
  { h with memory := h.memory.store (offset + 8) 4 value }

end Heap

/-- The body shared by the two halves of `plug_holes`: the free block `second`
is joined to the free block `first` before it. -/
def combine (h : Heap) (first second : ℕ) : Heap :=
  let h := if h.lfree = second then { h with lfree := first } else h
  let h := h.setNext first (h.header second).next
  h.setPrev (h.header second).next first

def plugHoles (h : Heap) (mem : ℕ) : Heap :=
  let nmem := (h.header mem).next
  let h :=
    if mem ≠ nmem ∧ (h.header nmem).used = 0 ∧ nmem ≠ h.heapEnd then
      combine h mem nmem
    else h
  let pmem := (h.header mem).prev
  if pmem ≠ mem ∧ (h.header pmem).used = 0 then
    combine h pmem mem
  else h

/-- `none` is the error exit; the other static variables start at zero. -/
def rtSystemHeapInit (a : AlignSize) (memory : Memory) (beginAddr endAddr : ℕ) :
    Option Heap :=
  let beginAlign := rtAlign a beginAddr
  let endAlign := rtAlignDown a endAddr
  if endAlign > 2 * sizeofStructMem a ∧ endAlign - 2 * sizeofStructMem a ≥ beginAlign then
    let memSizeAligned := endAlign - beginAlign - 2 * sizeofStructMem a
    let heapEnd := memSizeAligned + sizeofStructMem a
    let h : Heap := {
      heapPtr := beginAlign
      memory := memory
      heapEnd := heapEnd
      lfree := 0
      memSizeAligned := memSizeAligned
      usedMem := 0
      maxMem := 0 }
    let h := h.setMagic 0 heapMagic
    let h := h.setNext 0 heapEnd
    let h := h.setPrev 0 0
    let h := h.setUsed 0 0
    let h := h.setMagic heapEnd heapMagic
    let h := h.setUsed heapEnd 1
    let h := h.setNext heapEnd heapEnd
    some (h.setPrev heapEnd heapEnd)
  else none

/-- The search loop of `rt_malloc`: `some (some ptr)` is the first block from
`ptr` on that is free and large enough, `some none` the end of the search. -/
def searchFree (a : AlignSize) (h : Heap) (size : ℕ) : ℕ → ℕ → Option (Option ℕ)
  | 0, _ => none
  | fuel + 1, ptr =>
    if ptr < sub32 h.memSizeAligned size then
      if (h.header ptr).used = 0 ∧
          sub32 (h.header ptr).next (add32 ptr (sizeofStructMem a)) ≥ size then
        some (some ptr)
      else searchFree a h size fuel (h.header ptr).next
    else some none

def searchLfree (h : Heap) : ℕ → ℕ → Option ℕ
  | 0, _ => none
  | fuel + 1, ptr =>
    if (h.header ptr).used ≠ 0 ∧ ptr ≠ h.heapEnd then
      searchLfree h fuel (h.header ptr).next
    else some ptr

/-- `used_mem += size`, with `max_mem` kept above it. -/
def accountUsed (h : Heap) (size : ℕ) : Heap :=
  let h := { h with usedMem := add32 h.usedMem size }
  if h.maxMem < h.usedMem then { h with maxMem := h.usedMem } else h

/-- The code that `rt_malloc` and `rt_realloc` share: create a free block at
`ptr2` inside the block at `ptr` and link it in behind that block. -/
def insertBlock (a : AlignSize) (h : Heap) (ptr ptr2 : ℕ) : Heap :=
  let h := h.setUsed ptr2 0
  let h := h.setNext ptr2 (h.header ptr).next
  let h := h.setPrev ptr2 ptr
  let h := h.setNext ptr ptr2
  if (h.header ptr2).next ≠ h.memSizeAligned + sizeofStructMem a then
    h.setPrev (h.header ptr2).next ptr2
  else h

/-- The body of the search loop for a block that fits: split it when the rest
can hold a header and `MIN_SIZE_ALIGNED` bytes, and mark it used. -/
def takeBlock (a : AlignSize) (h : Heap) (ptr size : ℕ) : Heap :=
  let h :=
    if sub32 (h.header ptr).next (add32 ptr (sizeofStructMem a)) ≥
        add32 (add32 size (sizeofStructMem a)) (minSizeAligned a) then
      let ptr2 := add32 (add32 ptr (sizeofStructMem a)) size
      let h := insertBlock a h ptr ptr2
      let h := h.setUsed ptr 1
      accountUsed h (add32 size (sizeofStructMem a))
    else
      let h := h.setUsed ptr 1
      accountUsed h (sub32 (h.header ptr).next ptr)
  h.setMagic ptr heapMagic

def moveLfree (h : Heap) (ptr : ℕ) : Option Heap :=
  if ptr = h.lfree then
    match searchLfree h (h.heapEnd + 1) h.lfree with
    | none => none
    | some lfree => some { h with lfree := lfree }
  else some h

def dataSize (a : AlignSize) (size : ℕ) : ℕ :=
  if size < minSizeAligned a then minSizeAligned a else size

def rtMalloc (a : AlignSize) (h : Heap) (size : ℕ) : Option (Heap × ℕ) :=
  if size = 0 then some (h, rtNull)
  else
    let size := rtAlign a size
    if size > h.memSizeAligned then some (h, rtNull)
    else
      let size := dataSize a size
      match searchFree a h size (h.heapEnd + 1) h.lfree with
      | none => none
      | some none => some (h, rtNull)
      | some (some ptr) =>
        match moveLfree (takeBlock a h ptr size) ptr with
        | none => none
        | some h => some (h, h.heapPtr + ptr + sizeofStructMem a)

def rtFree (a : AlignSize) (h : Heap) (rmem : ℕ) : Heap :=
  if rmem = rtNull then h
  else if rmem < h.heapPtr ∨ h.heapPtr + h.heapEnd ≤ rmem then h
  else
    let mem := rmem - sizeofStructMem a - h.heapPtr
    let h := h.setUsed mem 0
    let h := h.setMagic mem 0
    let h := if mem < h.lfree then { h with lfree := mem } else h
    let h := { h with usedMem := sub32 h.usedMem (sub32 (h.header mem).next mem) }
    plugHoles h mem

def splitBlock (a : AlignSize) (h : Heap) (ptr size newsize : ℕ) : Heap :=
  let h := { h with usedMem := sub32 h.usedMem (sub32 size newsize) }
  let ptr2 := add32 (add32 ptr (sizeofStructMem a)) newsize
  let h := h.setMagic ptr2 heapMagic
  let h := insertBlock a h ptr ptr2
  plugHoles h ptr2

def rtRealloc (a : AlignSize) (h : Heap) (rmem newsize : ℕ) : Option (Heap × ℕ) :=
  let newsize := rtAlign a newsize
  if newsize > h.memSizeAligned then some (h, rtNull)
  else if rmem = rtNull then rtMalloc a h newsize
  else if rmem < h.heapPtr ∨ h.heapPtr + h.heapEnd ≤ rmem then some (h, rmem)
  else
    let ptr := rmem - sizeofStructMem a - h.heapPtr
    let size := sub32 (sub32 (h.header ptr).next ptr) (sizeofStructMem a)
    if size = newsize then some (h, rmem)
    else if add32 (add32 newsize (sizeofStructMem a)) minSize < size then
      some (splitBlock a h ptr size newsize, rmem)
    else
      match rtMalloc a h newsize with
      | none => none
      | some (h, nmem) =>
        if nmem ≠ rtNull then
          let h := { h with
            memory := h.memory.copy (nmem - h.heapPtr) (rmem - h.heapPtr)
              (if size < newsize then size else newsize) }
          some (rtFree a h rmem, nmem)
        else some (h, nmem)

def rtCalloc (a : AlignSize) (h : Heap) (count size : ℕ) : Option (Heap × ℕ) :=
  match rtMalloc a h (mul32 count size) with
  | none => none
  | some (h, p) =>
    if p ≠ rtNull then
      some ({ h with
        memory := h.memory.clear (p - h.heapPtr) (mul32 count size) }, p)
    else some (h, p)

end RtThread.SmallMem
