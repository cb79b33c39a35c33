import RtThread.ByteStrings
import RtThread.MemheapInvariant
import RtThread.FileHistory

/-!
# The RAM file system

`dfs_ramfs.c` keeps a directory of `struct ramfs_dirent`, which are allocated from
the memory heap of the file system like the data of the files.  The directory is
the list of the addresses of its entries, the last one created first; names, data
pointers and sizes stand in the bytes of the heap.  A descriptor of DFS has a
size and a position of its own.
-/

namespace RtThread.Ramfs

open Function Word MemHeap

abbrev Name := List UInt8

def RAMFS_NAME_MAX : ℕ := 32

def DFS_O_WRONLY : UInt32 := 0x1

def DFS_O_CREAT : UInt32 := 0x100

def DFS_O_TRUNC : UInt32 := 0x1000

def DFS_O_APPEND : UInt32 := 0x2000

def DFS_O_DIRECTORY : UInt32 := 0x200000

def DFS_F_OPEN : UInt32 := 0x01000000

def DFS_F_EOF : UInt32 := 0x04000000

def DFS_STATUS_ENOENT : ℤ := 2

def DFS_STATUS_EIO : ℤ := 5

def DFS_STATUS_ENOMEM : ℤ := 12

def DFS_STATUS_ENOSPC : ℤ := 28

variable {a : AlignSize}

structure Disk (a : AlignSize) extends Area a where
  root : ℕ
  root_pos : 0 < root
  root_fits : root + 48 ≤ start

structure DfsRamfs where
  heap : MemHeap.State
  entries : List ℕ

structure DfsFd where
  path : Name
  flags : UInt32
  data : ℕ
  size : ℕ
  pos : ℕ
  deriving DecidableEq

def DfsFd.has (fd : DfsFd) (flag : UInt32) : Bool := fd.flags &&& flag != 0

def dfsRamfsCreate (disk : Disk a) (before : MemHeap.State) : DfsRamfs where
  heap := rtMemheapInit a before disk.heap disk.head disk.start disk.size
  entries := []

def nameAddr (dirent : ℕ) : ℕ := dirent + 8

def direntData (m : Memory) (dirent : ℕ) : ℕ := m.load (dirent + 40) 4

def setData (m : Memory) (dirent data : ℕ) : Memory := m.store (dirent + 40) 4 data

def direntSize (m : Memory) (dirent : ℕ) : ℕ := m.load (dirent + 44) 4

def setSize (m : Memory) (dirent size : ℕ) : Memory := m.store (dirent + 44) 4 size

/-- `sizeof(struct ramfs_dirent)`. -/
def sizeofDirent : ℕ := 48

def DfsRamfs.setMemory (ramfs : DfsRamfs) (m : Memory) : DfsRamfs :=
  { ramfs with heap := { ramfs.heap with memory := m } }

def subpath (path : Name) : Name := path.dropWhile (· = 0x2f)

def DfsRamfs.find (ramfs : DfsRamfs) (name : Name) : Option ℕ :=
  ramfs.entries.find? fun dirent => ramfs.heap.memory.sameString (nameAddr dirent) name

def dfsRamfsLookup (disk : Disk a) (ramfs : DfsRamfs) (path : Name) : ℕ :=
  if subpath path = [] then disk.root else (ramfs.find (subpath path)).getD rtNull

def dfsRamfsRead (ramfs : DfsRamfs) (file : DfsFd) (count : ℕ) : List UInt8 × DfsFd :=
  let rest := sub32 file.size file.pos
  let length := if count < rest then count else rest
  (ramfs.heap.memory.bytes (direntData ramfs.heap.memory file.data + file.pos) length,
    { file with pos := add32 file.pos length })

def copyIn (ramfs : DfsRamfs) (fd : DfsFd) (buf : List UInt8) : DfsRamfs × DfsFd × ℕ :=
  (ramfs.setMemory (ramfs.heap.memory.put (direntData ramfs.heap.memory fd.data + fd.pos) buf),
    { fd with pos := add32 fd.pos buf.length }, buf.length)

def updateDirent (ramfs : DfsRamfs) (fd : DfsFd) (ptr size : ℕ) : DfsRamfs × DfsFd :=
  let m := setData ramfs.heap.memory fd.data ptr
  let m := setSize m fd.data size
  (ramfs.setMemory m, { fd with size := direntSize m fd.data })

/-- `none` is a call of the heap which does not return. -/
def dfsRamfsWrite (disk : Disk a) (ramfs : DfsRamfs) (fd : DfsFd) (buf : List UInt8) :
    Option (DfsRamfs × DfsFd × ℕ) :=
  if add32 buf.length fd.pos > fd.size then
    (rtMemheapRealloc a ramfs.heap disk.heap (direntData ramfs.heap.memory fd.data)
        (add32 fd.pos buf.length)).map fun (heap, ptr) =>
      let ramfs := { ramfs with heap := heap }
      if ptr = rtNull then (ramfs, fd, 0)
      else
        let (ramfs, fd) := updateDirent ramfs fd ptr (add32 fd.pos buf.length)
        copyIn ramfs fd buf
  else some (copyIn ramfs fd buf)

def toSigned (word : ℕ) : ℤ := if word < 2147483648 then word else word - 4294967296

def dfsRamfsLseek (file : DfsFd) (offset : ℤ) : DfsFd × ℤ :=
  if offset ≤ toSigned file.size then
    ({ file with pos := (offset % 4294967296).toNat }, offset)
  else (file, - DFS_STATUS_EIO)

def dfsRamfsClose (file : DfsFd) : DfsFd × ℤ := ({ file with data := rtNull }, 0)

def newDirent (m : Memory) (dirent : ℕ) (path : Name) : Memory :=
  let m := m.strncpy (nameAddr dirent) (subpath path) RAMFS_NAME_MAX
  let m := setData m dirent rtNull
  setSize m dirent 0

def truncateFile (a : AlignSize) (ramfs : DfsRamfs) (dirent : ℕ) : DfsRamfs :=
  let ramfs := ramfs.setMemory (setSize ramfs.heap.memory dirent 0)
  let data := direntData ramfs.heap.memory dirent
  if data ≠ rtNull then
    let ramfs := { ramfs with heap := rtMemheapFree a ramfs.heap data }
    ramfs.setMemory (setData ramfs.heap.memory dirent rtNull)
  else ramfs

def openDirent (ramfs : DfsRamfs) (file : DfsFd) (dirent : ℕ) : DfsRamfs × DfsFd × ℤ :=
  let size := direntSize ramfs.heap.memory dirent
  (ramfs, { file with
    data := dirent
    size := size
    pos := if file.has DFS_O_APPEND then size else 0 }, 0)

def openFile (a : AlignSize) (ramfs : DfsRamfs) (file : DfsFd) (dirent : ℕ) :
    DfsRamfs × DfsFd × ℤ :=
  if file.has DFS_O_TRUNC then openDirent (truncateFile a ramfs dirent) file dirent
  else openDirent ramfs file dirent

def dfsRamfsOpen (disk : Disk a) (ramfs : DfsRamfs) (file : DfsFd) :
    Option (DfsRamfs × DfsFd × ℤ) :=
  let dirent := dfsRamfsLookup disk ramfs file.path
  if file.has DFS_O_DIRECTORY then
    if file.has DFS_O_CREAT then some (ramfs, file, -DFS_STATUS_ENOSPC)
    else if dirent = rtNull then some (ramfs, file, -DFS_STATUS_ENOENT)
    -- the root is refused without `DFS_O_DIRECTORY` only, which is set here
    else some (openDirent ramfs file dirent)
  else if dirent = disk.root then some (ramfs, file, -DFS_STATUS_ENOENT)
  else if dirent = rtNull then
    if file.has DFS_O_CREAT || file.has DFS_O_WRONLY then
      (rtMemheapAlloc a ramfs.heap disk.heap sizeofDirent).map fun (heap, dirent) =>
        let ramfs := { ramfs with heap := heap }
        if dirent = rtNull then (ramfs, file, -DFS_STATUS_ENOMEM)
        else
          let ramfs := ramfs.setMemory (newDirent ramfs.heap.memory dirent file.path)
          openFile a { ramfs with entries := dirent :: ramfs.entries } file dirent
    else some (ramfs, file, -DFS_STATUS_ENOENT)
  else some (openFile a ramfs file dirent)

/-- `dfs_file_open`; `path` is the path below the mount point, and a failing call clears the
descriptor. -/
def dfsFileOpen (disk : Disk a) (ramfs : DfsRamfs) (path : Name) (flags : UInt32) :
    Option (DfsRamfs × Option DfsFd × ℤ) :=
  let fd : DfsFd := { path := path, flags := flags, data := rtNull, size := 0, pos := 0 }
  (dfsRamfsOpen disk ramfs fd).map fun (ramfs, fd, result) =>
    if result < 0 then (ramfs, none, result)
    else (ramfs, some { fd with flags := fd.flags ||| DFS_F_OPEN }, 0)

def dfsFileRead (ramfs : DfsRamfs) (fd : DfsFd) (len : ℕ) : List UInt8 × DfsFd :=
  let (bytes, fd) := dfsRamfsRead ramfs fd len
  if toSigned bytes.length < 0 then (bytes, { fd with flags := fd.flags ||| DFS_F_EOF })
  else (bytes, fd)

def dfsFileLseek (fd : DfsFd) (offset : ℤ) : DfsFd × ℤ :=
  let (fd, result) := dfsRamfsLseek fd offset
  if result ≥ 0 then ({ fd with pos := result.toNat }, result) else (fd, result)

def dfsFileClose (fd : DfsFd) : Option DfsFd × ℤ :=
  let (fd, result) := dfsRamfsClose fd
  if result < 0 then (some fd, result) else (none, result)

inductive Call where
  | open (fd : ℕ) (path : Name) (flags : UInt32)
  | read (fd : ℕ) (len : UInt32)
  | write (fd : ℕ) (buf : List UInt8)
  | lseek (fd : ℕ) (offset : ℤ)
  | close (fd : ℕ)

inductive Outcome where
  | opened (result : ℤ)
  | got (bytes : List UInt8)
  | wrote (count : ℕ)
  | sought (result : ℤ)
  | closed (result : ℤ)
  | badDescriptor
  deriving DecidableEq

structure State where
  ramfs : DfsRamfs
  fds : ℕ → Option DfsFd
  history : List (FileHistory.Event Name UInt8)

def eventsOfOpen (disk : Disk a) (s : State) (path : Name) (flags : UInt32) (result : ℤ) :
    List (FileHistory.Event Name UInt8) :=
  if 0 ≤ result ∧ (dfsRamfsLookup disk s.ramfs path = rtNull ∨ flags &&& DFS_O_TRUNC ≠ 0) then
    .emptied (subpath path) :: s.history
  else s.history

def eventsOfWrite (s : State) (fd : DfsFd) (buf : List UInt8) (count : ℕ) :
    List (FileHistory.Event Name UInt8) :=
  if count = buf.length then .wrote (subpath fd.path) fd.pos buf :: s.history else s.history

def execute (disk : Disk a) (s : State) : Call → Option (State × Outcome)
  | .open fd path flags =>
    (dfsFileOpen disk s.ramfs path flags).map fun (ramfs, file, result) =>
      ({ ramfs := ramfs
         fds := update s.fds fd file
         history := eventsOfOpen disk s path flags result }, .opened result)
  | .read fd len =>
    match s.fds fd with
    | none => some (s, .badDescriptor)
    | some file =>
      let (bytes, file) := dfsFileRead s.ramfs file len.toNat
      some ({ s with fds := update s.fds fd (some file) }, .got bytes)
  | .write fd buf =>
    match s.fds fd with
    | none => some (s, .badDescriptor)
    | some file =>
      (dfsRamfsWrite disk s.ramfs file buf).map fun (ramfs, file', count) =>
        ({ ramfs := ramfs
           fds := update s.fds fd (some file')
           history := eventsOfWrite s file buf count }, .wrote count)
  | .lseek fd offset =>
    match s.fds fd with
    | none => some (s, .badDescriptor)
    | some file =>
      let (file, result) := dfsFileLseek file offset
      some ({ s with fds := update s.fds fd (some file) }, .sought result)
  | .close fd =>
    match s.fds fd with
    | none => some (s, .badDescriptor)
    | some file =>
      let (file, result) := dfsFileClose file
      some ({ s with fds := update s.fds fd file }, .closed result)

end RtThread.Ramfs
