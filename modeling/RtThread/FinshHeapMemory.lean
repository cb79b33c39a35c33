import RtThread.FinshHeap
import RtThread.LinkedRing

/-!
# The string heap in memory

The functions of `finsh_heap.c` on the words of the memory.  The header of a
block has its length in the first word and the address of the next block of its
list in the second; all headers are aligned, so two words overlap only when
they are the same.  Every loop gets a bound on its rounds.
-/

namespace RtThread.Finsh.HeapMem

abbrev Words := ℕ → ℕ

def nextAt (words : Words) (header : ℕ) : ℕ := words (header + 4)

def setNext (words : Words) (header next : ℕ) : Words := Function.update words (header + 4) next

def lengthAt (words : Words) (header : ℕ) : ℕ := words header

def setLength (words : Words) (header length : ℕ) : Words := Function.update words header length

structure State where
  words : Words
  freeList : ℕ
  allocateList : ℕ

/-- `memset(start, 0, size)` -/
def clearWords (words : Words) (start size : ℕ) : Words :=
  fun a => if start ≤ a ∧ a < start + size then 0 else words a

def finshHeapInit (finshHeap : ℕ) (words : Words) : State where
  words := setNext (setLength (clearWords words finshHeap FINSH_HEAP_MAX) finshHeap
    (FINSH_HEAP_MAX - sizeofBlockHeader)) finshHeap 0
  freeList := finshHeap
  allocateList := 0

/-- The loop for the insert point: the first node whose successor is behind `header`, or the
last one. -/
def insertPoint (words : Words) (header : ℕ) : ℕ → ℕ → Option ℕ
  | 0, _ => none
  | n + 1, node =>
    if node = 0 then some node
    else if header < nextAt words node then some node
    else if nextAt words node = 0 then some node
    else insertPoint words header n (nextAt words node)

def finshBlockInsert (n list header : ℕ) (words : Words) : Option (ℕ × Words) :=
  if list = 0 then some (header, words)
  else if header < list then some (header, setNext words header list)
  else (insertPoint words header n list).map fun node =>
    let words := if nextAt words node ≠ 0 then setNext words header (nextAt words node) else words
    (list, setNext words node header)

def findPrev (words : Words) (header : ℕ) : ℕ → ℕ → Option ℕ
  | 0, _ => none
  | n + 1, node =>
    if node = 0 then some node
    else if nextAt words node = header then some node
    else findPrev words header n (nextAt words node)

def finshBlockRemove (n list header : ℕ) (words : Words) : Option (ℕ × Words) :=
  if list = header then some (nextAt words header, setNext words header 0)
  else (findPrev words header n list).map fun node =>
    (list, if node ≠ 0 then setNext words node (nextAt words header) else words)

def finshBlockSplit (header size : ℕ) (words : Words) : Words :=
  let next := header + sizeofBlockHeader + size
  let words := setLength words next (lengthAt words header - sizeofBlockHeader - size)
  let words := setLength words header size
  let words := setNext words next (nextAt words header)
  setNext words header next

def touches (words : Words) (header next : ℕ) : Prop :=
  header + lengthAt words header + sizeofBlockHeader = next

instance (words : Words) (header next : ℕ) : Decidable (touches words header next) :=
  inferInstanceAs (Decidable (_ = _))

def finshBlockMerge (n list header : ℕ) (words : Words) : Option Words :=
  let nextNode := nextAt words header
  (if list = header then some 0 else findPrev words header n list).map fun prevNode =>
    if prevNode ≠ 0 ∧ touches words prevNode header then
      if nextNode ≠ 0 ∧ touches words header nextNode then
        let words := setLength words prevNode (lengthAt words prevNode +
          (lengthAt words header + lengthAt words nextNode + 2 * sizeofBlockHeader))
        setNext words prevNode (nextAt words nextNode)
      else
        let words := setLength words prevNode
          (lengthAt words prevNode + (lengthAt words header + sizeofBlockHeader))
        setNext words prevNode (nextAt words header)
    else if nextNode ≠ 0 ∧ touches words header nextNode then
      let words := setLength words header
        (lengthAt words header + (lengthAt words nextNode + sizeofBlockHeader))
      setNext words header (nextAt words nextNode)
    else words

def finshHeapFree (n header : ℕ) (s : State) : Option State :=
  (finshBlockRemove n s.allocateList header s.words).bind fun removed =>
    (finshBlockInsert n s.freeList header removed.2).bind fun inserted =>
      (finshBlockMerge n inserted.1 header inserted.2).map fun words =>
        { words := words, freeList := inserted.1, allocateList := removed.1 }

/-- The loop of `finsh_heap_gc`; `used` tells whether some variable points to the data of the
block. -/
def gcLoop (used : ℕ → Bool) (n : ℕ) : ℕ → ℕ → State → Option State
  | 0, _, _ => none
  | k + 1, header, s =>
    if header = 0 then some s
    else
      let next := nextAt s.words header
      if used header then gcLoop used n k next s
      else (finshHeapFree n header s).bind fun s => gcLoop used n k next s

def finshHeapGc (used : ℕ → Bool) (n : ℕ) (s : State) : Option State :=
  gcLoop used n n s.allocateList s

/-- The loops for the first fit: blocks whose length is `small` are passed over. -/
def skipSmall (small : ℕ → Bool) (words : Words) : ℕ → ℕ → Option ℕ
  | 0, _ => none
  | n + 1, header =>
    if header = 0 then some header
    else if small (lengthAt words header) then skipSmall small words n (nextAt words header)
    else some header

/-- `finsh_heap_allocate` behind the search: the block at `header` is split and moved. -/
def takeHeader (n header size : ℕ) (s : State) : Option State :=
  (finshBlockRemove n s.freeList header (finshBlockSplit header size s.words)).bind fun removed =>
    (finshBlockInsert n s.allocateList header (setNext removed.2 header 0)).map fun inserted =>
      { words := clearWords inserted.2 (header + sizeofBlockHeader) size
        freeList := removed.1
        allocateList := inserted.1 }

def finshHeapAllocate (used : ℕ → Bool) (n size : ℕ) (s : State) : Option (ℕ × State) :=
  let size := heapAlignSize size
  (skipSmall (fun length => length ≤ size + sizeofBlockHeader) s.words n s.freeList).bind
    fun header =>
      if header ≠ 0 then (takeHeader n header size s).map fun s => (header, s)
      else (finshHeapGc used n s).bind fun s =>
        (skipSmall (fun length => length < size + sizeofBlockHeader) s.words n s.freeList).bind
          fun header =>
            if header ≠ 0 then (takeHeader n header size s).map fun s => (header, s)
            else some (0, s)

end RtThread.Finsh.HeapMem
