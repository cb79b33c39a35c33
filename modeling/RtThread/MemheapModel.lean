import RtThread.ByteMemory
import RtThread.KernelDefs

/-!
# The memory heap object

`memheap.c` manages a memory area by items.  An item starts with a
`struct rt_memheap_item` of six 32-bit words and belongs to a circular list of
all items in address order; the items which are not in use are also linked in a
second circular list that starts at `free_header` in the control block.  Items
live in the bytes of the address space, control blocks in a table of their own.
-/

namespace RtThread.MemHeap

open Word

inductive Field where
  | magic
  | poolPtr
  | next
  | prev
  | nextFree
  | prevFree
  deriving DecidableEq

def Field.offset : Field → ℕ
  | .magic => 0
  | .poolPtr => 4
  | .next => 8
  | .prev => 12
  | .nextFree => 16
  | .prevFree => 20

def get (m : Memory) (field : Field) (item : ℕ) : ℕ :=
  m.load (item + field.offset) 4

def set (m : Memory) (field : Field) (item value : ℕ) : Memory :=
  m.store (item + field.offset) 4 value

/-- The members of `struct rt_memheap` that the functions below use;
`freeHeader` is the address of the member `free_header`. -/
structure RtMemheap where
  startAddr : ℕ
  poolSize : ℕ
  availableSize : ℕ
  maxUsedSize : ℕ
  blockList : ℕ
  freeList : ℕ
  freeHeader : ℕ

structure State where
  memory : Memory
  heaps : ℕ → RtMemheap

def memheapMagic : ℕ := 0x1ea01ea0

def memheapUsed : ℕ := 1

def miniAlloc : ℕ := 12

def memheapSize (a : AlignSize) : ℕ := rtAlign a 24

def isUsed (m : Memory) (item : ℕ) : Bool := get m .magic item &&& memheapUsed != 0

def memitemSize (a : AlignSize) (m : Memory) (item : ℕ) : ℕ :=
  sub32 (sub32 (get m .next item) item) (memheapSize a)

def pushFree (m : Memory) (freeList item : ℕ) : Memory :=
  let m := set m .nextFree item (get m .nextFree freeList)
  let m := set m .prevFree item freeList
  let m := set m .prevFree (get m .nextFree freeList) item
  set m .nextFree freeList item

def unlinkFree (m : Memory) (item : ℕ) : Memory :=
  let m := set m .prevFree (get m .nextFree item) (get m .prevFree item)
  set m .nextFree (get m .prevFree item) (get m .nextFree item)

def clearFree (m : Memory) (item : ℕ) : Memory :=
  let m := set m .nextFree item rtNull
  set m .prevFree item rtNull

def insertItem (m : Memory) (heap headerPtr newPtr : ℕ) : Memory :=
  let m := set m .magic newPtr memheapMagic
  let m := set m .poolPtr newPtr heap
  let m := set m .prev newPtr headerPtr
  let m := set m .next newPtr (get m .next headerPtr)
  let m := set m .prev (get m .next headerPtr) newPtr
  set m .next headerPtr newPtr

def unlinkBlock (m : Memory) (item : ℕ) : Memory :=
  let m := set m .prev (get m .next item) (get m .prev item)
  set m .next (get m .prev item) (get m .next item)

def mergeNext (m : Memory) (item free : ℕ) : Memory :=
  let m := set m .prev (get m .next free) item
  set m .next item (get m .next free)

def absorbNext (m : Memory) (item free : ℕ) : Memory :=
  unlinkFree (mergeNext m item free) free

def mergePrev (m : Memory) (item : ℕ) : Memory :=
  let m := set m .next (get m .prev item) (get m .next item)
  set m .prev (get m .next item) (get m .prev item)

def initItem (m : Memory) (memheap item : ℕ) : Memory :=
  let m := set m .magic item memheapMagic
  let m := set m .poolPtr item memheap
  let m := set m .next item rtNull
  let m := set m .prev item rtNull
  let m := set m .nextFree item item
  set m .prevFree item item

def rtMemheapInit (a : AlignSize) (s : State) (memheap freeHeader startAddr size : ℕ) :
    State :=
  let poolSize := rtAlignDown a size
  let availableSize := sub32 poolSize (mul32 2 (memheapSize a))
  let maxUsedSize := sub32 poolSize availableSize
  let m := initItem s.memory memheap freeHeader
  let m := initItem m memheap startAddr
  let m := set m .next startAddr (add32 (add32 startAddr availableSize) (memheapSize a))
  let m := set m .prev startAddr (get m .next startAddr)
  let m := pushFree m freeHeader startAddr
  let tailer := get m .next startAddr
  let m := set m .magic tailer (memheapMagic ||| memheapUsed)
  let m := set m .poolPtr tailer memheap
  let m := set m .next tailer startAddr
  let m := set m .prev tailer startAddr
  let m := set m .prevFree tailer rtNull
  let m := set m .nextFree tailer rtNull
  { memory := m
    heaps := Function.update s.heaps memheap {
      startAddr := startAddr
      poolSize := poolSize
      availableSize := availableSize
      maxUsedSize := maxUsedSize
      blockList := startAddr
      freeList := freeHeader
      freeHeader := freeHeader } }

/-- The search loop of `rt_memheap_alloc`: the item at which it stops and the
size it read last. -/
def searchFree (a : AlignSize) (m : Memory) (freeList size : ℕ) : ℕ → ℕ → ℕ → Option (ℕ × ℕ)
  | 0, _, _ => none
  | fuel + 1, headerPtr, freeSize =>
    if headerPtr ≠ freeList ∧ freeSize < size then
      let freeSize := memitemSize a m headerPtr
      if freeSize < size then
        searchFree a m freeList size fuel (get m .nextFree headerPtr) freeSize
      else searchFree a m freeList size fuel headerPtr freeSize
    else some (headerPtr, freeSize)

def charge (h : RtMemheap) (bytes : ℕ) : RtMemheap :=
  let h := { h with availableSize := sub32 h.availableSize bytes }
  if sub32 h.poolSize h.availableSize > h.maxUsedSize then
    { h with maxUsedSize := sub32 h.poolSize h.availableSize }
  else h

def setAvailable (h : RtMemheap) (bytes : ℕ) : RtMemheap :=
  { h with availableSize := bytes }

def State.update (s : State) (heap : ℕ) (m : Memory) (h : RtMemheap) : State :=
  { memory := m, heaps := Function.update s.heaps heap h }

def itemSize (a : AlignSize) (size : ℕ) : ℕ :=
  if rtAlign a size < miniAlloc then miniAlloc else rtAlign a size

def takeWhole (m : Memory) (headerPtr : ℕ) : Memory :=
  let m := unlinkFree m headerPtr
  let m := clearFree m headerPtr
  set m .magic headerPtr (get m .magic headerPtr ||| memheapUsed)

def takeFront (m : Memory) (heap freeList headerPtr newPtr : ℕ) : Memory :=
  let m := insertItem m heap headerPtr newPtr
  let m := unlinkFree m headerPtr
  let m := clearFree m headerPtr
  let m := pushFree m freeList newPtr
  set m .magic headerPtr (get m .magic headerPtr ||| memheapUsed)

def takeItem (a : AlignSize) (s : State) (heap headerPtr freeSize size : ℕ) : State :=
  let h := s.heaps heap
  if freeSize ≥ add32 (add32 size (memheapSize a)) miniAlloc then
    let newPtr := add32 (add32 headerPtr size) (memheapSize a)
    s.update heap (takeFront s.memory heap h.freeList headerPtr newPtr)
      (charge h (add32 size (memheapSize a)))
  else s.update heap (takeWhole s.memory headerPtr) (charge h freeSize)

/-- The state after the call and the returned pointer; `none` is a search that
does not end. -/
def rtMemheapAlloc (a : AlignSize) (s : State) (heap size : ℕ) : Option (State × ℕ) :=
  let h := s.heaps heap
  let size := itemSize a size
  if size < h.availableSize then
    match searchFree a s.memory h.freeList size (h.poolSize + 2)
        (get s.memory .nextFree h.freeList) 0 with
    | none => none
    | some (headerPtr, freeSize) =>
      if freeSize ≥ size then
        some (takeItem a s heap headerPtr freeSize size, headerPtr + memheapSize a)
      else some (s, rtNull)
  else some (s, rtNull)

def mergeLeft (a : AlignSize) (m : Memory) (headerPtr available : ℕ) : Memory × ℕ × ℕ :=
  if isUsed m (get m .prev headerPtr) then (m, headerPtr, available)
  else (mergePrev m headerPtr, get m .prev headerPtr, add32 available (memheapSize a))

def mergeRight (a : AlignSize) (m : Memory) (headerPtr available : ℕ) : Memory × ℕ :=
  if isUsed m (get m .next headerPtr) then (m, available)
  else (absorbNext m headerPtr (get m .next headerPtr), add32 available (memheapSize a))

def rtMemheapFree (a : AlignSize) (s : State) (ptr : ℕ) : State :=
  if ptr = rtNull then s
  else
    let headerPtr := ptr - memheapSize a
    let heap := get s.memory .poolPtr headerPtr
    let h := s.heaps heap
    let m := set s.memory .magic headerPtr (get s.memory .magic headerPtr &&& 0xfffffffe)
    let available := add32 h.availableSize (memitemSize a m headerPtr)
    let insertHeader := isUsed m (get m .prev headerPtr)
    let left := mergeLeft a m headerPtr available
    let right := mergeRight a left.1 left.2.1 left.2.2
    let m := if insertHeader then pushFree right.1 h.freeList left.2.1 else right.1
    s.update heap m (setAvailable h right.2)

def growItem (a : AlignSize) (s : State) (heap headerPtr oldsize newsize : ℕ) : State :=
  let h := s.heaps heap
  let nextPtr := get s.memory .next headerPtr
  let m := unlinkFree s.memory nextPtr
  let m := unlinkBlock m nextPtr
  let newPtr := add32 (headerPtr + memheapSize a) newsize
  let m := insertItem m heap headerPtr newPtr
  let m := pushFree m h.freeList newPtr
  s.update heap m (charge h (sub32 newsize oldsize))

/-- Merge the item split off at `newPtr` with its next neighbour, whose bytes the
caller counts again. -/
def mergeSplit (a : AlignSize) (m : Memory) (newPtr available : ℕ) : Memory × ℕ :=
  let freePtr := get m .next newPtr
  if isUsed m freePtr then (m, available)
  else (absorbNext m newPtr freePtr, sub32 available (memitemSize a m freePtr))

def shrinkItem (a : AlignSize) (s : State) (heap headerPtr newsize : ℕ) : State :=
  let h := s.heaps heap
  let newPtr := add32 (add32 headerPtr newsize) (memheapSize a)
  let m := insertItem s.memory heap headerPtr newPtr
  let right := mergeSplit a m newPtr h.availableSize
  let m := pushFree right.1 h.freeList newPtr
  s.update heap m (setAvailable h (add32 right.2 (memitemSize a m newPtr)))

def moveItem (a : AlignSize) (s : State) (heap ptr oldsize newsize : ℕ) : Option (State × ℕ) :=
  match rtMemheapAlloc a s heap newsize with
  | none => none
  | some (s, newPtr) =>
    if newPtr ≠ rtNull then
      let m := s.memory.copy newPtr ptr (if oldsize < newsize then oldsize else newsize)
      some (rtMemheapFree a { s with memory := m } ptr, newPtr)
    else some (s, newPtr)

def rtMemheapRealloc (a : AlignSize) (s : State) (heap ptr newsize : ℕ) : Option (State × ℕ) :=
  if newsize = 0 then some (rtMemheapFree a s ptr, rtNull)
  else
    let newsize := itemSize a newsize
    if ptr = rtNull then rtMemheapAlloc a s heap newsize
    else
      let headerPtr := ptr - memheapSize a
      let oldsize := memitemSize a s.memory headerPtr
      if newsize > oldsize then
        let nextPtr := get s.memory .next headerPtr
        if !isUsed s.memory nextPtr ∧
            add32 (memitemSize a s.memory nextPtr) oldsize > add32 newsize miniAlloc then
          some (growItem a s heap headerPtr oldsize newsize, ptr)
        else
          moveItem a s heap ptr oldsize newsize
      else if add32 (add32 newsize (memheapSize a)) miniAlloc ≥ oldsize then some (s, ptr)
      else some (shrinkItem a s heap headerPtr newsize, ptr)

end RtThread.MemHeap
