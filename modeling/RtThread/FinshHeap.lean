import RtThread.FinshDefs
import RtThread.WordArith

/-!
# The string heap of FinSH

String constants are stored in blocks of `finsh_heap`.  The free and the
allocated blocks are kept in lists sorted by address; the lists stand for the
`next` fields of the block headers.  The last block of the heap is always free,
so a released block always gets a successor and its old `next` is never seen.
-/

namespace RtThread.Finsh

structure FinshBlock where
  addr : ℕ
  length : ℕ
  deriving DecidableEq, Repr

def sizeofBlockHeader : ℕ := 8

def FinshBlock.behind (block : FinshBlock) : ℕ :=
  block.addr + block.length + sizeofBlockHeader

structure FinshHeap where
  freeList : List FinshBlock
  allocateList : List FinshBlock
  deriving DecidableEq, Repr

abbrev FinshVars := Fin FINSH_VARIABLE_MAX → FinshVar

def finshHeapInit : FinshHeap where
  freeList := [⟨0, FINSH_HEAP_MAX - sizeofBlockHeader⟩]
  allocateList := []

def heapAlignSize (size : ℕ) : ℕ := Word.alignUp size 4

def finshBlockInsert (header : FinshBlock) : List FinshBlock → List FinshBlock
  | [] => [header]
  | node :: rest =>
    if header.addr < node.addr then header :: node :: rest
    else node :: finshBlockInsert header rest

def finshBlockRemove (header : FinshBlock) (list : List FinshBlock) : List FinshBlock :=
  list.eraseP (fun node => node.addr = header.addr)

def finshBlockSplit (header : FinshBlock) (size : ℕ) : FinshBlock where
  addr := header.addr + sizeofBlockHeader + size
  length := header.length - sizeofBlockHeader - size

def mergeNext (header : FinshBlock) : List FinshBlock → List FinshBlock
  | [] => [header]
  | next :: rest =>
    if header.behind = next.addr then
      { header with length := header.length + next.length + sizeofBlockHeader } :: rest
    else header :: next :: rest

def finshBlockMerge (addr : ℕ) : List FinshBlock → List FinshBlock
  | [] => []
  | prev :: rest =>
    if prev.addr = addr then mergeNext prev rest
    else match rest with
      | [] => [prev]
      | header :: rest =>
        if header.addr = addr then
          if prev.behind = header.addr then
            mergeNext { prev with
              length := prev.length + header.length + sizeofBlockHeader } rest
          else prev :: mergeNext header rest
        else prev :: finshBlockMerge addr (header :: rest)

def finshHeapFree (header : FinshBlock) (heap : FinshHeap) : FinshHeap where
  freeList := finshBlockMerge header.addr (finshBlockInsert header heap.freeList)
  allocateList := finshBlockRemove header heap.allocateList

def FinshEnv.blockData (env : FinshEnv) (block : FinshBlock) : ℕ :=
  env.finshHeap + block.addr + sizeofBlockHeader

def FinshEnv.valuePtr (env : FinshEnv) (m : Memory) (i : Fin FINSH_VARIABLE_MAX) : ℕ :=
  m.load (env.valueAddr (.var i)).toNat 4

def FinshEnv.referenced
    (env : FinshEnv) (vars : FinshVars) (m : Memory) (block : FinshBlock) : Bool :=
  (List.finRange FINSH_VARIABLE_MAX).any fun i =>
    (vars i).type != .unknown && env.valuePtr m i == env.blockData block

def finshHeapGc (env : FinshEnv) (vars : FinshVars) (m : Memory) (heap : FinshHeap) : FinshHeap :=
  heap.allocateList.foldl (fun heap block =>
    if env.referenced vars m block then heap else finshHeapFree block heap) heap

def takeBlock (header : FinshBlock) (size : ℕ) (heap : FinshHeap) : FinshHeap where
  freeList := finshBlockRemove header (finshBlockInsert (finshBlockSplit header size) heap.freeList)
  allocateList := finshBlockInsert ⟨header.addr, size⟩ heap.allocateList

/-- `finsh_heap_allocate` up to the clearing of the data.  The search before the garbage
collection wants a larger block than the one after it. -/
def finshHeapAllocate (env : FinshEnv) (vars : FinshVars) (m : Memory) (size : ℕ)
    (heap : FinshHeap) : Option FinshBlock × FinshHeap :=
  let size := heapAlignSize size
  match heap.freeList.find? (fun header => size + sizeofBlockHeader < header.length) with
  | some header => (some ⟨header.addr, size⟩, takeBlock header size heap)
  | none =>
    let heap := finshHeapGc env vars m heap
    match heap.freeList.find? (fun header => size + sizeofBlockHeader ≤ header.length) with
    | some header => (some ⟨header.addr, size⟩, takeBlock header size heap)
    | none => (none, heap)

end RtThread.Finsh
