import RtThread.RamfsRuns
import Mathlib.Data.List.TakeWhile

/-!
# Directory streams

`readdir` takes records out of the buffer of its stream and lets the file system
fill it again.  The descriptor counts entries; `num` and `cur` of the stream
count bytes, and `telldir` adds the one to the others.
-/

namespace RtThread.DirStreams

open List Ramfs Word Memory

variable {a : AlignSize}

def DFS_PATH_MAX : ℕ := 256

def DFS_DT_REG : ℕ := 0x01

def DFS_DT_DIR : ℕ := 0x02

def DFS_STATUS_EINVAL : ℤ := 22

/-! ## Records -/

/-- `sizeof(struct dirent)`: the type, the length of the name, the length of the record in two
bytes, and the name. -/
def sizeofRecord : ℕ := 4 + DFS_PATH_MAX

def dReclen (buf : Memory) (d : ℕ) : ℕ := buf.load (d + 2) 2

def dName (buf : Memory) (d : ℕ) : Option Name :=
  let field := buf.bytes (d + 4) DFS_PATH_MAX
  if 0 ∈ field then some (field.takeWhile (· ≠ 0)) else none

def fillRecord (buf : Memory) (d type namlen : ℕ) (name : Name) (n : ℕ) : Memory :=
  let buf := buf.store d 1 type
  let buf := buf.store (d + 1) 1 namlen
  let buf := buf.store (d + 2) 2 sizeofRecord
  buf.strncpy (d + 4) name n

/-! ## The file systems -/

structure DirOps where
  lseek : DfsFd → ℤ → DfsFd × ℤ
  getdents : DfsFd → Memory → ℕ → ℕ → DfsFd × Memory × ℤ

def direntName (m : Memory) (dirent : ℕ) : Name :=
  (m.bytes (nameAddr dirent) RAMFS_NAME_MAX).takeWhile (· ≠ 0)

/-- The loop of `dfs_ramfs_getdents` over the entries, from the one at `index` on; `count`
records have been filled. -/
def ramfsRecords (rtNameMax : ℕ) (m : Memory) (last dirp : ℕ) :
    List ℕ → ℕ → ℕ → DfsFd → Memory → DfsFd × Memory × ℕ
  | [], _, count, file, buf => (file, buf, count)
  | dirent :: rest, index, count, file, buf =>
    if index < last then
      if file.pos ≤ index then
        ramfsRecords rtNameMax m last dirp rest (index + 1) (count + 1)
          { file with pos := add32 file.pos 1 }
          (fillRecord buf (dirp + count * sizeofRecord) DFS_DT_REG rtNameMax
            (direntName m dirent) RAMFS_NAME_MAX)
      else ramfsRecords rtNameMax m last dirp rest (index + 1) count file buf
    else (file, buf, count)

def dfsRamfsGetdents (rtNameMax : ℕ) (disk : Disk a) (ramfs : DfsRamfs) (file : DfsFd)
    (buf : Memory) (dirp count : ℕ) : DfsFd × Memory × ℤ :=
  if file.data ≠ disk.root then (file, buf, -DFS_STATUS_EINVAL)
  else if count / sizeofRecord = 0 then (file, buf, -DFS_STATUS_EINVAL)
  else
    let (file, buf, filled) := ramfsRecords rtNameMax ramfs.heap.memory
      (add32 file.pos (count / sizeofRecord)) dirp ramfs.entries 0 0 file buf
    (file, buf, (filled * sizeofRecord : ℕ))

structure RomDirent where
  isDir : Bool
  name : Name
  noZero : 0 ∉ name

def dfsRomfsLseek (file : DfsFd) (offset : ℤ) : DfsFd × ℤ :=
  if (offset % 4294967296).toNat ≤ file.size then
    ({ file with pos := (offset % 4294967296).toNat }, toSigned (offset % 4294967296).toNat)
  else (file, - DFS_STATUS_EIO)

def romfsRecords (entries : List RomDirent) (dirp : ℕ) : ℕ → ℕ → DfsFd → Memory → DfsFd × Memory × ℕ
  | 0, index, file, buf => (file, buf, index)
  | left + 1, index, file, buf =>
    if file.pos < file.size then
      match entries[file.pos]? with
      | some dirent =>
        romfsRecords entries dirp left (index + 1) { file with pos := add32 file.pos 1 }
          (fillRecord buf (dirp + index * sizeofRecord)
            (if dirent.isDir then DFS_DT_DIR else DFS_DT_REG) dirent.name.length dirent.name
            (dirent.name.length + 1))
      -- `size` is the number of entries
      | none => (file, buf, index)
    else (file, buf, index)

def dfsRomfsGetdents (entries : List RomDirent) (file : DfsFd) (buf : Memory) (dirp count : ℕ) :
    DfsFd × Memory × ℤ :=
  if count / sizeofRecord = 0 then (file, buf, -DFS_STATUS_EINVAL)
  else
    let (file, buf, filled) := romfsRecords entries dirp (count / sizeofRecord) 0 file buf
    (file, buf, (filled * sizeofRecord : ℕ))

/-- The root of a ramfs, where `RT_NAME_MAX` is configured, or the table of a directory of a
romfs. -/
inductive Directory (a : AlignSize) where
  | ram (rtNameMax : ℕ) (disk : Disk a) (ramfs : DfsRamfs)
  | rom (entries : List RomDirent)

def Directory.ops : Directory a → DirOps
  | .ram rtNameMax disk ramfs => ⟨dfsRamfsLseek, dfsRamfsGetdents rtNameMax disk ramfs⟩
  | .rom entries => ⟨dfsRomfsLseek, dfsRomfsGetdents entries⟩

def rootSize (disk : Disk a) (ramfs : DfsRamfs) : ℕ := direntSize ramfs.heap.memory disk.root

def Directory.opened : Directory a → DfsFd
  | .ram _ disk ramfs =>
    { path := [0x2f]
      flags := DFS_O_DIRECTORY ||| DFS_F_OPEN
      data := disk.root
      size := rootSize disk ramfs
      pos := 0 }
  -- what `data` points to is the list of entries
  | .rom entries =>
    { path := [0x2f]
      flags := DFS_O_DIRECTORY ||| DFS_F_OPEN
      data := rtNull
      size := entries.length
      pos := 0 }

def Directory.names : Directory a → List Name
  | .ram _ _ ramfs => ramfs.entries.map (direntName ramfs.heap.memory)
  | .rom entries => entries.map RomDirent.name

/-! ## The streams -/

/-- `DIR` with its descriptor; behind the 512 bytes of `buf` stands what follows it. -/
structure Dir where
  buf : Memory
  num : ℕ
  cur : ℕ
  fd : DfsFd

def sizeofBuf : ℕ := 512

def opendir (dir : Directory a) (memory : Memory) : Dir where
  buf b := if b < sizeofBuf then 0 else memory b
  num := 0
  cur := 0
  fd := dir.opened

def readdir (ops : DirOps) (d : Dir) : Dir × Option ℕ :=
  let d := if d.num = 0 then d else { d with cur := d.cur + dReclen d.buf d.cur }
  if d.num = 0 ∨ d.num ≤ d.cur then
    -- get a new entry
    let (fd, buf, result) := ops.getdents d.fd d.buf 0 (sizeofBuf - 1)
    if result ≤ 0 then ({ d with fd := fd, buf := buf }, none)
    else ({ fd := fd, buf := buf, num := result.toNat, cur := 0 }, some 0)
  else (d, some d.cur)

def telldir (d : Dir) : ℤ := toSigned d.fd.pos - d.num + d.cur

def dfsFileLseek (ops : DirOps) (fd : DfsFd) (offset : ℤ) : DfsFd × ℤ :=
  let (fd, result) := ops.lseek fd offset
  if 0 ≤ result then ({ fd with pos := result.toNat }, result) else (fd, result)

def seekdir (ops : DirOps) (d : Dir) (offset : ℤ) : Dir :=
  let (fd, result) := dfsFileLseek ops d.fd offset
  if 0 ≤ result then { d with fd := fd, num := 0, cur := 0 } else { d with fd := fd }

def rewinddir (ops : DirOps) (d : Dir) : Dir :=
  let (fd, result) := dfsFileLseek ops d.fd 0
  if 0 ≤ result then { d with fd := fd, num := 0, cur := 0 } else { d with fd := fd }

/-! ## What a stream returns -/

/-- The names which `readdir` gives from here to the end. -/
inductive Yields (ops : DirOps) : Dir → List (Option Name) → Prop
  | finish {d d' : Dir} (h : readdir ops d = (d', none)) : Yields ops d []
  | next {d d' : Dir} {record : ℕ} {rest : List (Option Name)}
      (h : readdir ops d = (d', some record)) (hrest : Yields ops d' rest) :
      Yields ops d (dName d'.buf record :: rest)

def after (ops : DirOps) : ℕ → Dir → Dir
  | 0, d => d
  | k + 1, d => (readdir ops (after ops k d)).1

/-- The streams of any calls on an open directory. -/
inductive Reached (dir : Directory a) : Dir → Prop
  | opendir (memory : Memory) : Reached dir (opendir dir memory)
  | readdir {d : Dir} (h : Reached dir d) : Reached dir (readdir dir.ops d).1
  | seekdir {d : Dir} (h : Reached dir d) (offset : ℤ) : Reached dir (seekdir dir.ops d offset)
  | rewinddir {d : Dir} (h : Reached dir d) : Reached dir (rewinddir dir.ops d)

inductive Start (dir : Directory a) : Dir → Prop
  | opendir (memory : Memory) : Start dir (opendir dir memory)
  | rewinddir {d : Dir} (h : Reached dir d) : Start dir (rewinddir dir.ops d)

def InsideBuf (d : Dir) : Prop := d.num ≠ 0 → d.cur + 4 ≤ sizeofBuf

section Yields

variable {ops : DirOps} {d : Dir} {names names' : List (Option Name)}

theorem Yields.unique (h : Yields ops d names) (h' : Yields ops d names') : names = names' := by
  induction h generalizing names' with
  | finish hread =>
    cases h' with
    | finish _ => rfl
    | next hread' _ =>
      rw [hread] at hread'
      cases hread'
  | next hread _ ih =>
    cases h' with
    | finish hread' =>
      rw [hread] at hread'
      cases hread'
    | next hread' hrest' =>
      rw [hread] at hread'
      cases hread'
      rw [ih hrest']

theorem dName_short {buf : Memory} {record : ℕ} {name : Name}
    (h : dName buf record = some name) : name.length < DFS_PATH_MAX := by
  unfold dName at h
  dsimp only at h
  split_ifs at h with hzero
  cases h
  have hwidth : (buf.bytes (record + 4) DFS_PATH_MAX).length = DFS_PATH_MAX := by
    simp [bytes]
  have hfront := takeWhile_prefix (l := buf.bytes (record + 4) DFS_PATH_MAX)
    (fun b : UInt8 => decide (b ≠ 0))
  apply lt_of_le_of_ne (hfront.length_le.trans hwidth.le)
  intro heq
  have hall := hfront.eq_of_length (heq.trans hwidth.symm)
  have hne := takeWhile_eq_self_iff.mp hall 0 hzero
  exact absurd rfl (of_decide_eq_true hne)

theorem Yields.short (h : Yields ops d names) :
    ∀ name, some name ∈ names → name.length < DFS_PATH_MAX := by
  induction h with
  | finish _ =>
    intro name hmem
    cases hmem
  | next _ _ ih =>
    intro name hmem
    cases mem_cons.mp hmem with
    | inl hfirst => exact dName_short hfirst.symm
    | inr hrest => exact ih name hrest

end Yields

/-! ## Records in the buffer -/

section Records

variable {buf : Memory} {name : Name} {d type namlen n : ℕ}

theorem dName_of_shows (hshows : buf.ShowsString (d + 4) name) (hzero : 0 ∉ name)
    (hshort : name.length < DFS_PATH_MAX) : dName buf d = some name := by
  have hsplit : buf.bytes (d + 4) DFS_PATH_MAX =
      name ++ 0 :: buf.bytes (d + 4 + name.length + 1) (DFS_PATH_MAX - name.length - 1) := by
    apply ext_getElem?
    intro k
    rw [getElem?_bytes]
    by_cases hk : k < name.length
    · rw [if_pos (by lia), getElem?_append_left hk, hshows.char k hk,
        getElem?_eq_getElem hk]
    · rw [getElem?_append_right (by lia)]
      cases hrest : k - name.length with
      | zero =>
        have hend : k = name.length := by lia
        rw [if_pos (by lia), hend, hshows.zero]
        rfl
      | succ j =>
        rw [getElem?_cons_succ, getElem?_bytes]
        have haddr : d + 4 + k = d + 4 + name.length + 1 + j := by lia
        rw [haddr]
        by_cases hin : k < DFS_PATH_MAX
        · rw [if_pos hin, if_pos (by lia)]
        · rw [if_neg hin, if_neg (by lia)]
  have hmem : (0 : UInt8) ∈ buf.bytes (d + 4) DFS_PATH_MAX := by
    rw [hsplit]
    exact mem_append_right _ mem_cons_self
  have htake : (buf.bytes (d + 4) DFS_PATH_MAX).takeWhile (fun b => decide (b ≠ 0)) = name := by
    rw [hsplit, takeWhile_append_of_pos]
    · simp
    · intro b hb
      apply decide_eq_true
      intro heq
      exact hzero (heq ▸ hb)
  rw [dName, if_pos hmem, htake]

theorem fillRecord_outside {b : ℕ} (hout : b < d ∨ d + 4 + n ≤ b) (hheader : d + 4 ≤ b ∨ b < d) :
    fillRecord buf d type namlen name n b = buf b := by
  unfold fillRecord
  rw [strncpy_outside _ _ (by lia)]
  unfold store
  rw [if_neg (by lia), if_neg (by lia), if_neg (by lia)]

theorem dReclen_fillRecord : dReclen (fillRecord buf d type namlen name n) d = sizeofRecord := by
  have hfield : ∀ m : Memory, dReclen (m.strncpy (d + 4) name n) d = dReclen m d := by
    intro m
    apply load_congr
    intro b hlow hhigh
    exact m.strncpy_outside name (.inl (by omega))
  unfold fillRecord
  rw [hfield]
  exact load_store_same _ _ _ _

theorem fillRecord_shows (hlength : name.length < n ∨ name.length = n ∧ buf (d + 4 + n) = 0) :
    (fillRecord buf d type namlen name n).ShowsString (d + 4) name := by
  constructor
  · intro k hk
    have hpadded := @put_inside (d + 4) ((name ++ List.replicate n 0).take n) k
      (((buf.store d 1 type).store (d + 1) 1 namlen).store (d + 2) 2 sizeofRecord)
      (by rw [length_padded]; lia)
    rw [getElem_take, getElem_append_left hk] at hpadded
    exact hpadded
  · cases hlength with
    | inl hshort => exact (strncpy_shows _ hshort).zero
    | inr hfull => rw [hfull.1, fillRecord_outside (by lia) (by lia), hfull.2]

end Records

/-! ## Filling the buffer -/

/-- The directory lies in the address space of the machine: an entry takes sixteen bytes at
least, and the size of a root is that of a block of a heap. -/
structure Directory.InMemory (dir : Directory a) : Prop where
  few : dir.names.length < 268435456
  size : dir.opened.size < 2147483648

def Directory.Short (dir : Directory a) : Prop := ∀ name ∈ dir.names, name.length < DFS_PATH_MAX

def Directory.written : Directory a → ℕ
  | .ram _ _ _ => 4 + RAMFS_NAME_MAX
  | .rom _ => sizeofRecord

def Directory.at (dir : Directory a) (pos : ℕ) : DfsFd := { dir.opened with pos := pos }

@[simp] theorem Directory.at_pos (dir : Directory a) (pos : ℕ) : (dir.at pos).pos = pos := rfl

section Fill

variable {dir : Directory a} {buf : Memory} {pos : ℕ} {name : Name}

theorem direntName_fits (m : Memory) (dirent : ℕ) :
    (direntName m dirent).length ≤ RAMFS_NAME_MAX ∧ 0 ∉ direntName m dirent := by
  constructor
  · have hwidth : (m.bytes (nameAddr dirent) RAMFS_NAME_MAX).length = RAMFS_NAME_MAX := by
      simp [bytes]
    exact (List.takeWhile_prefix _).length_le.trans hwidth.le
  · intro hzero
    have hne := mem_takeWhile_imp (p := fun b : UInt8 => decide (b ≠ 0)) hzero
    exact absurd rfl (of_decide_eq_true hne)

theorem Directory.noZero (hname : dir.names[pos]? = some name) : 0 ∉ name := by
  have hmem := mem_of_getElem? hname
  cases dir with
  | ram rtNameMax disk ramfs =>
    obtain ⟨dirent, _, rfl⟩ := mem_map.mp hmem
    exact (direntName_fits _ _).2
  | rom entries =>
    obtain ⟨dirent, _, rfl⟩ := mem_map.mp hmem
    exact dirent.noZero

theorem ramfsRecords_one (rtNameMax : ℕ) (m : Memory) (entries : List ℕ) (index : ℕ)
    (file : DfsFd) (hindex : index ≤ file.pos) :
    ramfsRecords rtNameMax m (file.pos + 1) 0 entries index 0 file buf =
      match entries[file.pos - index]? with
      | some dirent =>
        ({ file with pos := add32 file.pos 1 },
          fillRecord buf 0 DFS_DT_REG rtNameMax (direntName m dirent) RAMFS_NAME_MAX, 1)
      | none => (file, buf, 0) := by
  induction entries generalizing index with
  | nil => rfl
  | cons dirent rest ih =>
    rw [ramfsRecords, if_pos (by lia)]
    by_cases hreached : file.pos ≤ index
    · have hzero : file.pos - index = 0 := by lia
      rw [if_pos hreached, hzero, getElem?_cons_zero]
      have hstops : ¬index + 1 < file.pos + 1 := by lia
      cases rest with
      | nil => simp [ramfsRecords]
      | cons _ _ => simp [ramfsRecords, hstops]
    · have hsucc : file.pos - index = file.pos - (index + 1) + 1 := by lia
      rw [if_neg hreached, ih (index + 1) (by lia), hsucc, getElem?_cons_succ]

theorem sizeofBuf_holds_one : (sizeofBuf - 1) / sizeofRecord = 1 := rfl

theorem getdents_next (hmem : dir.InMemory) (hname : dir.names[pos]? = some name)
    (hshort : name.length < DFS_PATH_MAX) :
    ∃ type namlen n, (name.length < n ∨ name.length = n ∧ dir.written = 4 + n) ∧
      4 + n ≤ dir.written ∧ dir.ops.getdents (dir.at pos) buf 0 (sizeofBuf - 1) =
        (dir.at (pos + 1), fillRecord buf 0 type namlen name n, (sizeofRecord : ℤ)) := by
  have hpos : pos < dir.names.length := (List.getElem?_eq_some_iff.mp hname).1
  have hfew := hmem.few
  have hadd : add32 pos 1 = pos + 1 := add32_eq_of_lt (by omega)
  cases dir with
  | ram rtNameMax disk ramfs =>
    rw [Directory.names, getElem?_map, Option.map_eq_some_iff] at hname
    obtain ⟨dirent, hdirent, rfl⟩ := hname
    refine ⟨DFS_DT_REG, rtNameMax, RAMFS_NAME_MAX, ?_, le_refl _, ?_⟩
    · exact (lt_or_eq_of_le (direntName_fits _ _).1).imp_right fun heq => ⟨heq, rfl⟩
    · have hloop := @ramfsRecords_one buf rtNameMax ramfs.heap.memory ramfs.entries 0
        ((Directory.ram rtNameMax disk ramfs).at pos) (Nat.zero_le _)
      rw [Directory.at_pos, Nat.sub_zero, hdirent, hadd] at hloop
      have hroot : ¬((Directory.ram rtNameMax disk ramfs).at pos).data ≠ disk.root :=
        fun hne => hne rfl
      change dfsRamfsGetdents rtNameMax disk ramfs _ buf 0 (sizeofBuf - 1) = _
      rw [dfsRamfsGetdents, if_neg hroot, if_neg (by decide), sizeofBuf_holds_one,
        Directory.at_pos, hadd, hloop]
      rfl
  | rom entries =>
    rw [Directory.names, getElem?_map, Option.map_eq_some_iff] at hname
    obtain ⟨dirent, hdirent, rfl⟩ := hname
    have hlength : pos < entries.length := (List.getElem?_eq_some_iff.mp hdirent).1
    refine ⟨if dirent.isDir then DFS_DT_DIR else DFS_DT_REG, dirent.name.length,
      dirent.name.length + 1, .inl (Nat.lt_succ_self _), ?_, ?_⟩
    · have hwritten : (Directory.rom (a := a) entries).written = 4 + DFS_PATH_MAX := rfl
      omega
    · change dfsRomfsGetdents entries _ buf 0 (sizeofBuf - 1) = _
      have hin : ((Directory.rom (a := a) entries).at pos).pos <
          ((Directory.rom (a := a) entries).at pos).size := hlength
      rw [dfsRomfsGetdents, if_neg (by decide), sizeofBuf_holds_one, romfsRecords, if_pos hin,
        Directory.at_pos, hdirent]
      rw [hadd]
      rfl

theorem getdents_end (hpos : dir.names.length ≤ pos) (hlt : pos < 4294967296) :
    dir.ops.getdents (dir.at pos) buf 0 (sizeofBuf - 1) = (dir.at pos, buf, 0) := by
  cases dir with
  | ram rtNameMax disk ramfs =>
    have hroot : ¬((Directory.ram rtNameMax disk ramfs).at pos).data ≠ disk.root :=
      fun hne => hne rfl
    change dfsRamfsGetdents rtNameMax disk ramfs _ buf 0 (sizeofBuf - 1) = _
    rw [dfsRamfsGetdents, if_neg hroot, if_neg (by decide), sizeofBuf_holds_one]
    have hempty : ramfsRecords rtNameMax ramfs.heap.memory
        (add32 ((Directory.ram rtNameMax disk ramfs).at pos).pos 1) 0 ramfs.entries 0 0
        ((Directory.ram rtNameMax disk ramfs).at pos) buf =
        ((Directory.ram rtNameMax disk ramfs).at pos, buf, 0) := by
      rw [Directory.at_pos]
      by_cases hwrap : pos + 1 = 4294967296
      · have hlast : add32 pos 1 = 0 := by rw [add32, hwrap]
        rw [hlast]
        cases ramfs.entries with
        | nil => rfl
        | cons _ _ => rw [ramfsRecords, if_neg (Nat.not_lt_zero _)]
      · have hnone : ramfs.entries[pos]? = none := by
          rw [getElem?_eq_none_iff]
          rw [Directory.names, length_map] at hpos
          exact hpos
        have hloop := @ramfsRecords_one buf rtNameMax ramfs.heap.memory ramfs.entries 0
          ((Directory.ram rtNameMax disk ramfs).at pos) (Nat.zero_le _)
        rw [Directory.at_pos, Nat.sub_zero, hnone] at hloop
        rw [add32_eq_of_lt (by omega), hloop]
    rw [hempty]
    rfl
  | rom entries =>
    have hout : ¬((Directory.rom (a := a) entries).at pos).pos <
        ((Directory.rom (a := a) entries).at pos).size := by
      rw [Directory.names, length_map] at hpos
      exact not_lt.mpr hpos
    change dfsRomfsGetdents entries _ buf 0 (sizeofBuf - 1) = _
    rw [dfsRomfsGetdents, if_neg (by decide), sizeofBuf_holds_one, romfsRecords, if_neg hout]
    rfl

end Fill

/-! ## The three layers together -/

/-- The next call of `readdir` asks the file system, which is at `pos`; behind the record in the
buffer everything is still cleared. -/
structure Ready (dir : Directory a) (d : Dir) (pos : ℕ) : Prop where
  fd : d.fd = dir.at pos
  bound : pos < 4294967296
  empty : d.num = 0 → d.cur = 0
  full : d.num ≠ 0 → d.num = sizeofRecord ∧
    (d.cur = 0 ∧ dReclen d.buf 0 = sizeofRecord ∨ d.cur = sizeofRecord)
  cleared : ∀ b, dir.written ≤ b → b < sizeofBuf → d.buf b = 0

section Streams

variable {dir : Directory a} {d : Dir} {pos k : ℕ} {name : Name} {offset : ℤ}

theorem Directory.written_le (dir : Directory a) : dir.written ≤ sizeofRecord := by
  have hram : 4 + RAMFS_NAME_MAX ≤ sizeofRecord := by decide
  cases dir with
  | ram _ _ _ => exact hram
  | rom _ => exact le_refl _

theorem Ready.inside (hready : Ready dir d pos) : InsideBuf d := by
  intro hnum
  have hrecord : sizeofRecord + 4 ≤ sizeofBuf := by decide
  cases (hready.full hnum).2 with
  | inl hfirst =>
    rw [hfirst.1]
    decide
  | inr hlast =>
    rw [hlast]
    exact hrecord

theorem readdir_ready (hready : Ready dir d pos) : readdir dir.ops d =
      let filled := dir.ops.getdents (dir.at pos) d.buf 0 (sizeofBuf - 1)
      if filled.2.2 ≤ 0 then
        ({ d with cur := d.num, fd := filled.1, buf := filled.2.1 }, none)
      else
        ({ fd := filled.1, buf := filled.2.1, num := filled.2.2.toNat, cur := 0 }, some 0) := by
  unfold readdir
  by_cases hnum : d.num = 0
  · simp only [hnum, hready.empty hnum, true_or, if_true, hready.fd]
  · obtain ⟨hfull, hplace⟩ := hready.full hnum
    have hcur : d.cur + dReclen d.buf d.cur = d.num := by
      cases hplace with
      | inl hfirst => rw [hfirst.1, hfirst.2, Nat.zero_add, hfull]
      | inr hlast =>
        have hwritten := dir.written_le
        have hlow : d.buf (sizeofRecord + 2) = 0 := hready.cleared _ (by omega) (by decide)
        have hhigh : d.buf (sizeofRecord + 2 + 1) = 0 := hready.cleared _ (by omega) (by decide)
        rw [hlast, dReclen, load, load, load, hlow, hhigh, hfull]
        rfl
    simp only [if_neg hnum, hcur, le_refl, or_true, if_true, hready.fd]

theorem readdir_next (hmem : dir.InMemory) (hready : Ready dir d pos)
    (hname : dir.names[pos]? = some name) (hshort : name.length < DFS_PATH_MAX) :
    ∃ d', readdir dir.ops d = (d', some 0) ∧ Ready dir d' (pos + 1) ∧ d'.num = sizeofRecord ∧
      d'.cur = 0 ∧ dName d'.buf 0 = some name := by
  obtain ⟨type, namlen, n, hlength, hwidth, hfills⟩ :=
    @getdents_next a dir d.buf pos name hmem hname hshort
  have hpos : pos < dir.names.length := (List.getElem?_eq_some_iff.mp hname).1
  have hfew := hmem.few
  have hsome : ¬(sizeofRecord : ℤ) ≤ 0 := by decide
  have hread := readdir_ready hready
  rw [hfills] at hread
  rw [if_neg hsome] at hread
  have hends : name.length < n ∨ name.length = n ∧ d.buf (0 + 4 + n) = 0 := by
    apply hlength.imp_right
    intro ⟨hfull, hend⟩
    have hin : 4 + DFS_PATH_MAX < sizeofBuf := by decide
    exact ⟨hfull, hready.cleared _ (by lia) (by lia)⟩
  exact ⟨_, hread,
    { fd := rfl
      bound := by lia
      empty := fun _ => rfl
      full := fun _ => ⟨rfl, .inl ⟨rfl, dReclen_fillRecord⟩⟩
      cleared := by
        intro b hfrom hto
        have hkept : fillRecord d.buf 0 type namlen name n b = d.buf b :=
          fillRecord_outside (by lia) (by lia)
        exact hkept.trans (hready.cleared b hfrom hto) },
    rfl, rfl, dName_of_shows (fillRecord_shows hends) (dir.noZero hname) hshort⟩

theorem readdir_end (hready : Ready dir d pos) (hpos : dir.names.length ≤ pos) :
    ∃ d', readdir dir.ops d = (d', none) ∧ Ready dir d' pos ∧ d'.num = d.num ∧ d'.cur = d.num := by
  have hread := readdir_ready hready
  rw [getdents_end hpos hready.bound] at hread
  rw [if_pos (le_refl _)] at hread
  exact ⟨_, hread,
    { fd := rfl
      bound := hready.bound
      empty := fun hnum => hnum
      full := fun hnum => ⟨(hready.full hnum).1, .inr (hready.full hnum).1⟩
      cleared := hready.cleared },
    rfl, rfl⟩

theorem yields_drop (hmem : dir.InMemory) (hshort : dir.Short) (hready : Ready dir d pos) :
    Yields dir.ops d ((dir.names.drop pos).map some) := by
  induction hleft : dir.names.length - pos generalizing d pos with
  | zero =>
    have hpos : dir.names.length ≤ pos := by lia
    obtain ⟨d', hread, _⟩ := readdir_end hready hpos
    rw [drop_of_length_le hpos]
    exact Yields.finish hread
  | succ left ih =>
    have hpos : pos < dir.names.length := by lia
    obtain ⟨d', hread, hready', _, _, hname⟩ := readdir_next hmem hready
      (getElem?_eq_getElem hpos) (hshort _ (getElem_mem hpos))
    rw [drop_eq_getElem_cons hpos, map_cons, ← hname]
    exact Yields.next hread (ih hready' (by lia))

def Directory.seekPos (dir : Directory a) (pos : ℕ) (offset : ℤ) : ℕ :=
  match dir with
  | .ram _ disk ramfs =>
    if offset ≤ rootSize disk ramfs then (offset % 4294967296).toNat else pos
  | .rom entries =>
    if (offset % 4294967296).toNat ≤ entries.length then (offset % 4294967296).toNat else pos

theorem seekPos_lt (hready : Ready dir d pos) : dir.seekPos pos offset < 4294967296 := by
  have hbound := hready.bound
  unfold Directory.seekPos
  cases dir with
  | ram _ _ _ | rom _ =>
    dsimp only
    split_ifs <;> omega

theorem dfsFileLseek_at (hmem : dir.InMemory) (pos : ℕ) (offset : ℤ) :
    ∃ result, dfsFileLseek dir.ops (dir.at pos) offset = (dir.at (dir.seekPos pos offset), result) ∧
        (offset = 0 → 0 ≤ result) := by
  have hsize := hmem.size
  cases dir with
  | ram rtNameMax disk ramfs =>
    have hroot : toSigned (rootSize disk ramfs) = rootSize disk ramfs := if_pos hsize
    have hlseek : (Directory.ram rtNameMax disk ramfs).ops.lseek
        ((Directory.ram rtNameMax disk ramfs).at pos) offset =
        if offset ≤ rootSize disk ramfs then
          ((Directory.ram rtNameMax disk ramfs).at (offset % 4294967296).toNat, offset)
        else ((Directory.ram rtNameMax disk ramfs).at pos, - DFS_STATUS_EIO) := by
      change dfsRamfsLseek _ offset = _
      unfold dfsRamfsLseek
      have hopened : ((Directory.ram rtNameMax disk ramfs).at pos).size = rootSize disk ramfs := rfl
      rw [hopened, hroot]
      rfl
    unfold dfsFileLseek Directory.seekPos
    rw [hlseek]
    dsimp only
    by_cases haccepted : offset ≤ rootSize disk ramfs
    · rw [if_pos haccepted, if_pos haccepted]
      by_cases hsign : 0 ≤ offset
      · have hpos : (offset % 4294967296).toNat = offset.toNat := by
          have hlt : rootSize disk ramfs < 2147483648 := hsize
          lia
        rw [if_pos hsign, hpos]
        exact ⟨offset, rfl, fun _ => hsign⟩
      · rw [if_neg hsign]
        exact ⟨offset, rfl, fun hzero => hzero.ge⟩
    · have hrefused : ¬(0 : ℤ) ≤ - DFS_STATUS_EIO := by decide
      rw [if_neg haccepted, if_neg haccepted, if_neg hrefused]
      refine ⟨_, rfl, fun hzero => ?_⟩
      rw [hzero] at haccepted
      exact absurd (Int.natCast_nonneg _) haccepted
  | rom entries =>
    have hlength : entries.length < 2147483648 := hsize
    have hlseek : (Directory.rom (a := a) entries).ops.lseek
        ((Directory.rom (a := a) entries).at pos) offset =
        if (offset % 4294967296).toNat ≤ entries.length then
          ((Directory.rom (a := a) entries).at (offset % 4294967296).toNat,
            toSigned (offset % 4294967296).toNat)
        else ((Directory.rom (a := a) entries).at pos, - DFS_STATUS_EIO) := rfl
    unfold dfsFileLseek Directory.seekPos
    rw [hlseek]
    dsimp only
    by_cases haccepted : (offset % 4294967296).toNat ≤ entries.length
    · have hvalue : toSigned (offset % 4294967296).toNat = (offset % 4294967296).toNat :=
        if_pos (by lia)
      have hsign : (0 : ℤ) ≤ (offset % 4294967296).toNat := Int.natCast_nonneg _
      rw [if_pos haccepted, if_pos haccepted, hvalue]
      rw [if_pos hsign, Int.toNat_natCast]
      exact ⟨_, rfl, fun _ => hsign⟩
    · have hrefused : ¬(0 : ℤ) ≤ - DFS_STATUS_EIO := by decide
      rw [if_neg haccepted, if_neg haccepted, if_neg hrefused]
      refine ⟨_, rfl, fun hzero => ?_⟩
      rw [hzero] at haccepted
      exact absurd (Nat.zero_le _) haccepted

theorem Ready.seekdir (hmem : dir.InMemory) (hready : Ready dir d pos) (offset : ℤ) :
    Ready dir (seekdir dir.ops d offset) (dir.seekPos pos offset) := by
  obtain ⟨result, hlseek, _⟩ := dfsFileLseek_at hmem pos offset
  unfold DirStreams.seekdir
  rw [hready.fd, hlseek]
  dsimp only
  split_ifs
  · exact
      { fd := rfl
        bound := seekPos_lt hready
        empty := fun _ => rfl
        full := fun hnum => absurd rfl hnum
        cleared := hready.cleared }
  · exact
      { fd := rfl
        bound := seekPos_lt hready
        empty := hready.empty
        full := hready.full
        cleared := hready.cleared }

theorem seekPos_zero (dir : Directory a) (pos : ℕ) : dir.seekPos pos 0 = 0 := by
  unfold Directory.seekPos
  cases dir with
  | ram _ _ _ =>
    dsimp only
    rw [if_pos (Int.natCast_nonneg _)]
    rfl
  | rom entries =>
    have hstart : (0 % 4294967296 : ℤ).toNat ≤ entries.length := Nat.zero_le _
    dsimp only
    rw [if_pos hstart]
    rfl

theorem rewinddir_start (hmem : dir.InMemory) (hready : Ready dir d pos) :
    Ready dir (rewinddir dir.ops d) 0 ∧ (rewinddir dir.ops d).num = 0 ∧
      (rewinddir dir.ops d).cur = 0 := by
  have hseek := hready.seekdir hmem 0
  rw [seekPos_zero] at hseek
  obtain ⟨result, hlseek, hsign⟩ := dfsFileLseek_at hmem pos 0
  have hrewind : rewinddir dir.ops d = { d with fd := dir.at 0, num := 0, cur := 0 } := by
    unfold rewinddir
    rw [hready.fd, hlseek, seekPos_zero]
    dsimp only
    rw [if_pos (hsign rfl)]
  refine ⟨hseek, ?_, ?_⟩
  · rw [hrewind]
  · rw [hrewind]

theorem opendir_ready (dir : Directory a) (memory : Memory) : Ready dir (opendir dir memory) 0 where
  fd := by
    cases dir with
    | ram _ _ _ | rom _ => rfl
  bound := by decide
  empty _ := rfl
  full hnum := absurd rfl hnum
  cleared _ _ hto := if_pos hto

theorem Reached.ready (hmem : dir.InMemory) (hshort : dir.Short) (h : Reached dir d) :
    ∃ pos, Ready dir d pos := by
  induction h with
  | opendir memory => exact ⟨0, opendir_ready dir memory⟩
  | readdir _ ih =>
    obtain ⟨pos, hready⟩ := ih
    by_cases hpos : pos < dir.names.length
    · obtain ⟨d', hread, hready', _⟩ := readdir_next hmem hready
        (getElem?_eq_getElem hpos) (hshort _ (getElem_mem hpos))
      rw [hread]
      exact ⟨pos + 1, hready'⟩
    · obtain ⟨d', hread, hready', _⟩ := readdir_end hready (not_lt.mp hpos)
      rw [hread]
      exact ⟨pos, hready'⟩
  | seekdir _ offset ih =>
    obtain ⟨pos, hready⟩ := ih
    exact ⟨_, hready.seekdir hmem offset⟩
  | rewinddir _ ih =>
    obtain ⟨pos, hready⟩ := ih
    exact ⟨0, (rewinddir_start hmem hready).1⟩

theorem Start.ready (hmem : dir.InMemory) (hshort : dir.Short) (h : Start dir d) :
    Ready dir d 0 ∧ d.num = 0 ∧ d.cur = 0 := by
  cases h with
  | opendir memory => exact ⟨opendir_ready dir memory, rfl, rfl⟩
  | rewinddir h =>
    obtain ⟨pos, hready⟩ := h.ready hmem hshort
    exact rewinddir_start hmem hready

theorem after_ready (hmem : dir.InMemory) (hshort : dir.Short) (h : Start dir d) (k : ℕ) :
    Ready dir (after dir.ops k d) (min k dir.names.length) ∧
      (after dir.ops k d).num = (if min k dir.names.length = 0 then 0 else sizeofRecord) ∧
      (after dir.ops k d).cur = if k ≤ dir.names.length then 0 else (after dir.ops k d).num := by
  induction k with
  | zero =>
    obtain ⟨hready, hnum, hcur⟩ := h.ready hmem hshort
    rw [Nat.zero_min, if_pos rfl, if_pos (Nat.zero_le _)]
    exact ⟨hready, hnum, hcur⟩
  | succ k ih =>
    obtain ⟨hready, hnum, _⟩ := ih
    by_cases hpos : k < dir.names.length
    · have hmin : min k dir.names.length = k := Nat.min_eq_left hpos.le
      have hmin' : min (k + 1) dir.names.length = k + 1 := Nat.min_eq_left hpos
      rw [hmin] at hready
      obtain ⟨d', hread, hready', hnum', hcur', _⟩ := readdir_next hmem hready
        (getElem?_eq_getElem hpos) (hshort _ (getElem_mem hpos))
      rw [after, hread, hmin', if_neg (Nat.succ_ne_zero k), if_pos (Nat.succ_le_of_lt hpos)]
      exact ⟨hready', hnum', hcur'⟩
    · have hmin : min k dir.names.length = dir.names.length := Nat.min_eq_right (not_lt.mp hpos)
      have hmin' : min (k + 1) dir.names.length = dir.names.length := Nat.min_eq_right (by omega)
      rw [hmin] at hready hnum
      obtain ⟨d', hread, hready', hnum', hcur'⟩ := readdir_end hready (le_refl _)
      rw [after, hread, hmin', if_neg (show ¬k + 1 ≤ dir.names.length by omega)]
      exact ⟨hready', hnum'.trans hnum, hcur'.trans hnum'.symm⟩

/-! ## The streams as a whole -/

/-- From `d` on every entry is yielded once with its name; further calls return a null pointer
and read inside the buffer; and after `k` calls `seekdir` to what `telldir` tells leaves what is
still to be returned as it is. -/
def StreamRight (dir : Directory a) (d : Dir) (k : ℕ) : Prop :=
  Yields dir.ops d (dir.names.map some) ∧
    (∀ j, dir.names.length ≤ j → (readdir dir.ops (after dir.ops j d)).2 = none ∧
      InsideBuf (after dir.ops j d)) ∧
    ∀ rest, Yields dir.ops (after dir.ops k d) rest →
      Yields dir.ops (seekdir dir.ops (after dir.ops k d) (telldir (after dir.ops k d))) rest

/-- What `telldir` tells after `k` calls is harmless: nothing or everything has been read, or
the number is refused. -/
def Directory.Keeps (dir : Directory a) (k : ℕ) : Prop :=
  k = 0 ∨ dir.names.length < k ∨ match dir with
    | .ram _ disk ramfs =>
      sizeofRecord + rootSize disk ramfs < k ∨ k = dir.names.length ∧ k < sizeofRecord
    | .rom _ => k < sizeofRecord

def Directory.told (dir : Directory a) (k : ℕ) : ℤ :=
  if k = 0 then 0
  else if k ≤ dir.names.length then (k : ℤ) - sizeofRecord
  else dir.names.length

section

variable (hmem : dir.InMemory)
include hmem

theorem telldir_after (hshort : dir.Short) (h : Start dir d) (k : ℕ) :
    telldir (after dir.ops k d) = dir.told k := by
  obtain ⟨hready, hnum, hcur⟩ := after_ready hmem hshort h k
  have hfew := hmem.few
  have hpos : toSigned (after dir.ops k d).fd.pos = (min k dir.names.length : ℕ) := by
    rw [hready.fd, Directory.at_pos]
    exact if_pos (by lia)
  rw [telldir, hpos, hcur, hnum, Directory.told]
  by_cases hzero : k = 0
  · rw [if_pos hzero, hzero, Nat.zero_min, if_pos rfl, if_pos (Nat.zero_le _)]
    rfl
  · rw [if_neg hzero]
    by_cases hin : k ≤ dir.names.length
    · rw [if_pos hin, if_pos hin, Nat.min_eq_left hin, if_neg hzero]
      lia
    · rw [if_neg hin, if_neg hin, Nat.min_eq_right (by lia)]
      lia

/-- Two positions of a directory list the same names when as many are left. -/
theorem seek_keeps_iff {pos' : ℕ} {d' : Dir} (hshort : dir.Short)
    (hready : Ready dir d pos) (hready' : Ready dir d' pos') :
    (∀ rest, Yields dir.ops d rest → Yields dir.ops d' rest) ↔
      dir.names.length - pos = dir.names.length - pos' := by
  have hyields := yields_drop hmem hshort hready
  have hyields' := yields_drop hmem hshort hready'
  constructor
  · intro hkeeps
    have hsame := (hkeeps _ hyields).unique hyields'
    have hlength := congrArg List.length hsame
    rw [length_map, length_map, length_drop, length_drop] at hlength
    exact hlength
  · intro hleft rest hrest
    have hsame : dir.names.drop pos = dir.names.drop pos' := by
      by_cases hpos : pos < dir.names.length
      · have heq : pos = pos' := by lia
        rw [heq]
      · rw [drop_of_length_le (not_lt.mp hpos), drop_of_length_le (by lia)]
    rw [hrest.unique hyields, hsame]
    exact hyields'

theorem seekPos_tell (k : ℕ) : dir.names.length - min k dir.names.length =
        dir.names.length - dir.seekPos (min k dir.names.length) (dir.told k) ↔
      dir.Keeps k := by
  have hfew := hmem.few
  have hrecord : sizeofRecord = 260 := rfl
  unfold Directory.told Directory.Keeps
  by_cases hzero : k = 0
  · rw [if_pos hzero, seekPos_zero, hzero]
    exact iff_of_true (by lia) (.inl rfl)
  · rw [if_neg hzero]
    by_cases hin : k ≤ dir.names.length
    · rw [if_pos hin, Nat.min_eq_left hin, or_iff_right hzero, or_iff_right (not_lt.mpr hin),
        hrecord]
      cases dir with
      | ram rtNameMax disk ramfs =>
        unfold Directory.seekPos
        dsimp only
        by_cases haccepted : (k : ℤ) - (260 : ℕ) ≤ rootSize disk ramfs
        · rw [if_pos haccepted]
          lia
        · rw [if_neg haccepted]
          exact iff_of_true rfl (.inl (by lia))
      | rom entries =>
        have hlength : (Directory.rom (a := a) entries).names.length = entries.length :=
          length_map _
        rw [hlength] at hin hfew ⊢
        unfold Directory.seekPos
        dsimp only
        by_cases haccepted : (((k : ℤ) - (260 : ℕ)) % 4294967296).toNat ≤ entries.length
        · rw [if_pos haccepted]
          lia
        · rw [if_neg haccepted]
          exact iff_of_true rfl (by lia)
    · rw [if_neg hin, Nat.min_eq_right (by lia)]
      apply iff_of_true _ (.inr (.inl (not_le.mp hin)))
      have hword : ((dir.names.length : ℤ) % 4294967296).toNat = dir.names.length := by lia
      unfold Directory.seekPos
      cases dir with
      | ram rtNameMax disk ramfs | rom entries =>
        dsimp only
        rw [hword, ite_self]

theorem keeps_of_streamRight (hstart : Start dir d)
    (hright : StreamRight dir d k) : dir.Short ∧ dir.Keeps k := by
  have hshort : dir.Short := by
    intro name hname
    exact hright.1.short name (mem_map_of_mem hname)
  obtain ⟨hready, _⟩ := after_ready hmem hshort hstart k
  have hseek := hready.seekdir hmem (telldir (after dir.ops k d))
  have hleft := (seek_keeps_iff hmem hshort hready hseek).mp hright.2.2
  rw [telldir_after hmem hshort hstart] at hleft
  exact ⟨hshort, (seekPos_tell hmem k).mp hleft⟩

theorem streamRight_of_keeps (hstart : Start dir d) (hshort : dir.Short)
    (hkeeps : dir.Keeps k) : StreamRight dir d k := by
  have hfirst := (hstart.ready hmem hshort).1
  refine ⟨yields_drop hmem hshort hfirst, ?_, ?_⟩
  · intro j hj
    obtain ⟨hready, _⟩ := after_ready hmem hshort hstart j
    rw [Nat.min_eq_right hj] at hready
    obtain ⟨d', hread, _⟩ := readdir_end hready (le_refl _)
    rw [hread]
    exact ⟨rfl, hready.inside⟩
  · obtain ⟨hready, _⟩ := after_ready hmem hshort hstart k
    have hseek := hready.seekdir hmem (telldir (after dir.ops k d))
    apply (seek_keeps_iff hmem hshort hready hseek).mpr
    rw [telldir_after hmem hshort hstart]
    exact (seekPos_tell hmem k).mpr hkeeps

end

end Streams

/-- A stream does right exactly when the names fit into `d_name` and the point lies where
`telldir` does no harm. -/
theorem streamRight_iff (dir : Directory a) (d : Dir) (k : ℕ) (hmem : dir.InMemory)
    (hstart : Start dir d) : StreamRight dir d k ↔ dir.Short ∧ dir.Keeps k :=
  ⟨keeps_of_streamRight hmem hstart, fun h => streamRight_of_keeps hmem hstart h.1 h.2⟩

section Sample

def romFile : RomDirent where
  isDir := false
  name := [0x66]
  noZero := by decide

def romFiles (count : ℕ) : Directory wordAlign := .rom (List.replicate count romFile)

theorem romFiles_inMemory {count : ℕ} (hcount : count < 268435456) : (romFiles count).InMemory := by
  constructor
  · simp only [romFiles, Directory.names, length_map, length_replicate]
    exact hcount
  · simp only [romFiles, Directory.opened, length_replicate]
    omega

theorem streamRight_romFiles : StreamRight (romFiles 2) (opendir (romFiles 2) fun _ => 0xff) 1 :=
  (streamRight_iff (romFiles 2) _ 1 (romFiles_inMemory (by decide)) (.opendir _)).mpr
    ⟨by
      unfold Directory.Short
      decide, .inr (.inr (show 1 < sizeofRecord by decide))⟩

def twoFiles : Option DfsRamfs := do
  let (ramfs, _, _) ← dfsFileOpen sampleDisk sampleStart.ramfs [0x2f, 0x66] 0x102
  let (ramfs, _, _) ← dfsFileOpen sampleDisk ramfs [0x2f, 0x67] 0x102
  some ramfs

/-- After the first of two files of a ramfs, where `telldir` tells a negative number; and after
as many files of a romfs as a record has bytes. -/
theorem not_streamRight_tell : (∃ ramfs, twoFiles = some ramfs ∧
      ¬StreamRight (.ram 8 sampleDisk ramfs) (opendir (.ram 8 sampleDisk ramfs) fun _ => 0xff) 1) ∧
      ¬StreamRight (romFiles 260) (opendir (romFiles 260) fun _ => 0xff) 260 := by
  constructor
  · have htwo : twoFiles.map (fun ramfs => (ramfs.entries.length, rootSize sampleDisk ramfs)) =
        some (2, 0) := by
      decide +kernel
    obtain ⟨ramfs, hramfs, hcounts⟩ := Option.map_eq_some_iff.mp htwo
    have hlength : ramfs.entries.length = 2 := congrArg Prod.fst hcounts
    have hroot : rootSize sampleDisk ramfs = 0 := congrArg Prod.snd hcounts
    have hnames : (Directory.ram 8 sampleDisk ramfs).names.length = 2 := by
      rw [Directory.names, length_map, hlength]
    refine ⟨ramfs, hramfs, fun hright => ?_⟩
    have hmem : (Directory.ram 8 sampleDisk ramfs).InMemory := by
      constructor
      · rw [hnames]
        decide
      · change rootSize sampleDisk ramfs < 2147483648
        rw [hroot]
        decide
    have hkeeps := (keeps_of_streamRight hmem (.opendir _) hright).2
    unfold Directory.Keeps at hkeeps
    dsimp only at hkeeps
    rw [hnames, hroot] at hkeeps
    revert hkeeps
    decide
  · intro hright
    have hkeeps := (keeps_of_streamRight (romFiles_inMemory (by decide)) (.opendir _) hright).2
    have hnames : (romFiles 260).names.length = 260 := by
      simp only [romFiles, Directory.names, length_map, length_replicate]
    unfold Directory.Keeps at hkeeps
    rw [hnames] at hkeeps
    have hrecord : ¬260 < sizeofRecord := by decide
    exact (hkeeps.resolve_left (by decide)).elim (lt_irrefl 260) hrecord

end Sample

end RtThread.DirStreams
