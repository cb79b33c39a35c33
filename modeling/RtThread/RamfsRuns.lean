import RtThread.RamfsBlocks

/-!
# Runs of the RAM file system

Any number of descriptors is opened, read, written, moved and closed in any order.
As long as no call relies on a size in its descriptor that is out of date, every
byte of a file is the one which was written there last.
-/

namespace RtThread.Ramfs

open Function List Option MemHeap Word FileHistory

variable {a : AlignSize} {disk : Disk a}

def DfsRamfs.byteAt (ramfs : DfsRamfs) (name : Name) (q : ℕ) : Option UInt8 :=
  (ramfs.find name).bind fun dirent =>
    if q < direntSize ramfs.heap.memory dirent then
      some (ramfs.heap.memory (direntData ramfs.heap.memory dirent + q))
    else none

def State.currentSize (s : State) (file : DfsFd) : ℕ := direntSize s.ramfs.heap.memory file.data

/-- Paths are C strings; directories are not opened; sizes do not wrap; and `lseek` stays within
the file. -/
def Call.Legal (a : AlignSize) (s : State) : Call → Prop
  | .open fd path flags => s.fds fd = none ∧ 0 ∉ path ∧ flags &&& DFS_O_DIRECTORY = 0
  | .read _ _ => True
  | .write fd buf => ∀ file, s.fds fd = some file → SizeFits a (file.pos + buf.length)
  | .lseek fd offset => 0 ≤ offset ∧ ∀ file, s.fds fd = some file → offset ≤ s.currentSize file
  | .close _ => True

/-- The size in the descriptor leads to the same bytes as the size of the file, and a name leaves
room for its NUL. -/
def Call.UpToDate (s : State) : Call → Prop
  | .open _ path _ => (subpath path).length < RAMFS_NAME_MAX
  | .read fd len => ∀ file, s.fds fd = some file →
      min len.toNat (file.size - file.pos) = min len.toNat (s.currentSize file - file.pos)
  | .write fd buf => ∀ file, s.fds fd = some file → buf = [] ∨ file.pos ≤ s.currentSize file ∧
        if file.size < file.pos + buf.length then s.currentSize file ≤ file.pos + buf.length
        else file.pos + buf.length ≤ s.currentSize file
  | .lseek _ _ => True
  | .close _ => True

def ramSystem (disk : Disk a) : TransitionSystem State Call where
  init s :=
    (∃ before, s.ramfs = dfsRamfsCreate disk before) ∧ (∀ fd, s.fds fd = none) ∧ s.history = []
  step s call s' := call.Legal a s ∧ ∃ outcome, execute disk s call = some (s', outcome)

def InBlock (a : AlignSize) (m : Memory) (p off count : ℕ) : Prop :=
  isUsed m (p - memheapSize a) = true ∧ p + off + count ≤ blockEnd a m p

/-- A read gives the bytes written last; a write changes its own bytes or none. -/
def Served (a : AlignSize) (s : State) (call : Call) (s' : State) (outcome : Outcome) : Prop :=
  match call with
  | .read fd len => ∀ file, s.fds fd = some file → ∃ bytes, outcome = .got bytes ∧ (∀ k, bytes[k]? =
        if k < len.toNat then
          FileHistory.latest s.history (subpath file.path) (file.pos + k)
        else none) ∧
      (bytes ≠ [] → InBlock a s.ramfs.heap.memory (direntData s.ramfs.heap.memory file.data)
        file.pos bytes.length)
  | .write fd buf => ∀ file, s.fds fd = some file → ∃ count, outcome = .wrote count ∧
      (count = buf.length ∧ (∀ name q, s'.ramfs.byteAt name q =
            if subpath file.path = name ∧ file.pos ≤ q ∧ q < file.pos + buf.length then
              buf[q - file.pos]?
            else s.ramfs.byteAt name q) ∧
          (buf ≠ [] → InBlock a s'.ramfs.heap.memory
            (direntData s'.ramfs.heap.memory file.data) file.pos buf.length) ∨
        count = 0 ∧ ∀ name q, s'.ramfs.byteAt name q = s.ramfs.byteAt name q)
  | _ => True

structure BelongsTo (file : DfsFd) (e : Entry) : Prop where
  data : file.data = e.addr
  name : subpath file.path = e.name
  pos_le : file.pos ≤ file.size
  size_lt : file.size < 4294967296

/-- The files on the disk are those the history leaves. -/
structure Inv (disk : Disk a) (s : State) (view : List Entry) : Prop where
  entries : s.ramfs.entries = view.map Entry.addr
  stored : Stored disk.toArea s.ramfs.heap view
  names : (view.map Entry.name).Nodup
  files : ∀ e ∈ view, FileHistory.Leaves s.history e.name e.file
  absent : ∀ name ∉ view.map Entry.name, FileHistory.Leaves s.history name []
  fds : ∀ fd file, s.fds fd = some file → ∃ e ∈ view, BelongsTo file e

variable {s : State} {view l r : List Entry} {e e' : Entry} {name : Name} {file : DfsFd}

namespace Inv

theorem listed (hinv : Inv disk s view) : Listed disk s.ramfs view where
  entries := hinv.entries
  stored := hinv.stored
  names := hinv.names

theorem byteAt_eq (hinv : Inv disk s view) (name : Name) (q : ℕ) :
    s.ramfs.byteAt name q = FileHistory.latest s.history name q := by
  unfold DfsRamfs.byteAt
  by_cases hname : name ∈ view.map Entry.name
  · rcases mem_map.mp hname with ⟨e, he, rfl⟩
    have hshown := hinv.stored.shown e he
    rw [hinv.listed.find_of_mem he, bind_some, hshown.dirent.size, hshown.dirent.data,
      ← hinv.files e he q]
    by_cases hq : q < e.file.length
    · rw [if_pos hq, hshown.bytes.byte q hq, getElem?_eq_getElem hq]
    · rw [if_neg hq, getElem?_eq_none (by omega)]
  · rw [hinv.listed.find_of_absent hname, ← hinv.absent name hname q]
    rfl

theorem replace {ramfs : DfsRamfs} {history : List (FileHistory.Event Name UInt8)}
    (hinv : Inv disk s (l ++ e :: r)) (haddr : e'.addr = e.addr) (hname : e'.name = e.name)
    (hentries : ramfs.entries = s.ramfs.entries)
    (hstored : Stored disk.toArea ramfs.heap (e' :: (l ++ r)))
    (hself : FileHistory.Leaves history e.name e'.file) (hothers : ∀ other, other ≠ e.name → ∀ file,
      FileHistory.Leaves s.history other file → FileHistory.Leaves history other file) :
    Inv disk { s with ramfs := ramfs, history := history } (l ++ e' :: r) := by
  have hmap : (l ++ e' :: r).map Entry.name = (l ++ e :: r).map Entry.name := by
    simp [hname]
  have hnames := hinv.names
  constructor
  · rw [hentries, hinv.entries]
    simp [haddr]
  · exact hstored.perm perm_middle.symm
  · rw [hmap]
    exact hnames
  · intro other hother
    rw [map_append, map_cons, nodup_middle, nodup_cons] at hnames
    rcases mem_cons.mp (perm_middle.mem_iff.mp hother) with rfl | hmem
    · rw [hname]
      exact hself
    · apply hothers
      · intro heq
        apply hnames.1
        rw [← heq, ← map_append]
        exact mem_map_of_mem hmem
      · exact hinv.files other (perm_middle.mem_iff.mpr (mem_cons_of_mem e hmem))
  · intro other habsent
    rw [hmap] at habsent
    apply hothers other _ [] (hinv.absent other habsent)
    rintro rfl
    exact habsent (mem_map_of_mem (perm_middle.mem_iff.mpr mem_cons_self))
  · intro fd file hfd
    rcases hinv.fds fd file hfd with ⟨other, hother, hbelongs⟩
    rcases mem_cons.mp (perm_middle.mem_iff.mp hother) with rfl | hmem
    · exact ⟨e', perm_middle.mem_iff.mpr mem_cons_self,
        ⟨hbelongs.data.trans haddr.symm, hbelongs.name.trans hname.symm, hbelongs.pos_le,
          hbelongs.size_lt⟩⟩
    · exact ⟨other, perm_middle.mem_iff.mpr (mem_cons_of_mem e' hmem), hbelongs⟩

theorem setFd {fd : ℕ} {slot : Option DfsFd} (hinv : Inv disk s view)
    (hslot : ∀ file, slot = some file → ∃ e ∈ view, BelongsTo file e) :
    Inv disk { s with fds := update s.fds fd slot } view :=
  { hinv with
    fds := by
      intro fd' file hfd
      dsimp only at hfd
      by_cases heq : fd' = fd
      · rw [heq, update_self] at hfd
        exact hslot file hfd
      · rw [update_of_ne heq] at hfd
        exact hinv.fds fd' file hfd }

end Inv

theorem openDirent_ramfs (ramfs : DfsRamfs) (d : ℕ) : (openDirent ramfs file d).1 = ramfs := rfl

theorem openDirent_belongsTo {d : ℕ} (ramfs : DfsRamfs) (haddr : d = e.addr)
    (hname : subpath file.path = e.name) : BelongsTo (openDirent ramfs file d).2.1 e where
  data := haddr
  name := hname
  pos_le := by
    unfold openDirent
    split_ifs
    · exact le_rfl
    · exact Nat.zero_le _
  size_lt := direntSize_lt _ _

namespace Inv

theorem openFile {history : List (FileHistory.Event Name UInt8)}
    (hinv : Inv disk s (l ++ e :: r)) (hname : subpath file.path = e.name)
    (hself : FileHistory.Leaves history e.name (if file.has DFS_O_TRUNC then [] else e.file))
    (hothers : ∀ other, other ≠ e.name → ∀ file,
      FileHistory.Leaves s.history other file → FileHistory.Leaves history other file) :
    (Ramfs.openFile a s.ramfs file e.addr).2.2 = 0 ∧ ∃ view', Inv disk
          { s with ramfs := (Ramfs.openFile a s.ramfs file e.addr).1, history := history } view' ∧
        ∃ e' ∈ view', BelongsTo (Ramfs.openFile a s.ramfs file e.addr).2.1 e' := by
  have hfirst := hinv.stored.perm perm_middle
  unfold Ramfs.openFile
  by_cases htrunc : file.has DFS_O_TRUNC = true
  · rw [if_pos htrunc]
    rw [if_pos htrunc] at hself
    refine ⟨rfl, l ++ { e with data := rtNull, file := [] } :: r, ?_, ?_⟩
    · rw [openDirent_ramfs]
      exact hinv.replace rfl rfl (truncateFile_entries s.ramfs e.addr) hfirst.truncate hself hothers
    · exact ⟨{ e with data := rtNull, file := [] }, by simp, openDirent_belongsTo _ rfl hname⟩
  · rw [if_neg htrunc]
    rw [if_neg htrunc] at hself
    refine ⟨rfl, l ++ e :: r, ?_, ?_⟩
    · exact hinv.replace rfl rfl rfl hfirst hself hothers
    · exact ⟨e, by simp, openDirent_belongsTo _ rfl hname⟩

theorem create {path : Name} {result : MemHeap.State × ℕ} (hinv : Inv disk s view)
    (hfits : NameFits (subpath path)) (habsent : subpath path ∉ view.map Entry.name)
    (hgranted : Granted disk.toArea s.ramfs.heap (view.flatMap Entry.blocks)
      (itemSize a sizeofDirent) result) : Inv disk
      { s with
        ramfs := {
          heap := { result.1 with memory := newDirent result.1.memory result.2 path }
          entries := result.2 :: s.ramfs.entries }
        history := .emptied (subpath path) :: s.history }
      (⟨result.2, subpath path, rtNull, []⟩ :: view) := by
  constructor
  · dsimp only
    rw [hinv.entries]
    rfl
  · exact hinv.stored.create hfits hgranted
  · exact nodup_cons.mpr ⟨habsent, hinv.names⟩
  · intro e he
    rcases mem_cons.mp he with rfl | he
    · exact Leaves.emptied
    · apply (hinv.files e he).emptied_other
      intro heq
      exact habsent (heq ▸ mem_map_of_mem he)
  · intro name hname
    rw [map_cons, mem_cons, not_or] at hname
    exact (hinv.absent name hname.2).emptied_other fun heq => hname.1 heq.symm
  · intro fd file hfd
    rcases hinv.fds fd file hfd with ⟨e, he, hbelongs⟩
    exact ⟨e, mem_cons_of_mem _ he, hbelongs⟩

end Inv

def OpensRight (disk : Disk a) (s : State) (path : Name) (flags : UInt32) : Prop :=
  ∃ ramfs slot result, dfsFileOpen disk s.ramfs path flags = some (ramfs, slot, result) ∧
    ∃ view, Inv disk
        { s with ramfs := ramfs, history := eventsOfOpen disk s path flags result } view ∧
      ∀ file, slot = some file → ∃ e ∈ view, BelongsTo file e

def freshFd (path : Name) (flags : UInt32) : DfsFd := ⟨path, flags, rtNull, 0, 0⟩

variable {path : Name} {flags : UInt32}

@[simp] theorem freshFd_path : (freshFd path flags).path = path := rfl

theorem opensRight_of_opened {ramfs : DfsRamfs} {fd : DfsFd}
    (hopen : dfsRamfsOpen disk s.ramfs (freshFd path flags) = some (ramfs, fd, 0))
    (hinv : Inv disk { s with
      ramfs := ramfs, history := eventsOfOpen disk s path flags 0 } view)
    (hbelongs : ∃ e ∈ view, BelongsTo fd e) : OpensRight disk s path flags := by
  refine ⟨ramfs, some { fd with flags := fd.flags ||| DFS_F_OPEN }, 0, ?_, view, hinv, ?_⟩
  · unfold freshFd at hopen
    unfold dfsFileOpen
    dsimp only
    rw [hopen]
    rfl
  · intro file hfile
    rcases hbelongs with ⟨e, he, hbelongs⟩
    rw [← some.inj hfile]
    exact ⟨e, he, ⟨hbelongs.data, hbelongs.name, hbelongs.pos_le, hbelongs.size_lt⟩⟩

theorem opensRight_of_refused (result : ℤ) (hinv : Inv disk s view) (hfailed : result < 0)
    (hopen : dfsRamfsOpen disk s.ramfs (freshFd path flags) =
      some (s.ramfs, freshFd path flags, result)) : OpensRight disk s path flags := by
  have hevents : eventsOfOpen disk s path flags result = s.history :=
    if_neg fun hboth => not_lt.mpr hboth.1 hfailed
  refine ⟨s.ramfs, none, result, ?_, view, ?_, fun file hfile => nomatch hfile⟩
  · unfold freshFd at hopen
    unfold dfsFileOpen
    dsimp only
    rw [hopen, map_some]
    exact congrArg some (if_pos hfailed)
  · rw [hevents]
    exact hinv

namespace Inv

theorem opensRight_of_mem (hinv : Inv disk s view) (hflags : flags &&& DFS_O_DIRECTORY = 0)
    (hpath : subpath path ≠ []) (he : e ∈ view) (hname : subpath path = e.name) :
    OpensRight disk s path flags := by
  have hlookup := hinv.listed.lookup_of_mem hpath he hname
  have hnull := hinv.listed.addr_ne_null he
  have hroot : e.addr ≠ disk.root := by
    have := hinv.listed.root_lt he
    omega
  have hopen : dfsRamfsOpen disk s.ramfs (freshFd path flags) =
      some (Ramfs.openFile a s.ramfs (freshFd path flags) e.addr) := by
    unfold dfsRamfsOpen freshFd DfsFd.has
    simp [hflags, hlookup, hroot, hnull]
  have hself : Leaves (eventsOfOpen disk s path flags 0) e.name
      (if (freshFd path flags).has DFS_O_TRUNC then [] else e.file) := by
    unfold eventsOfOpen DfsFd.has freshFd
    rw [hlookup, hname]
    by_cases htrunc : flags &&& DFS_O_TRUNC = 0
    · simpa [htrunc, hnull] using hinv.files e he
    · simpa [htrunc] using Leaves.emptied
  have hothers : ∀ other, other ≠ e.name → ∀ file, Leaves s.history other file →
      Leaves (eventsOfOpen disk s path flags 0) other file := by
    intro other hne file hleaves
    unfold eventsOfOpen
    rw [hname]
    split_ifs
    · exact hleaves.emptied_other hne.symm
    · exact hleaves
  rcases append_of_mem he with ⟨l, r, rfl⟩
  rcases hinv.openFile hname hself hothers with ⟨hzero, view', hinv', hbelongs⟩
  exact opensRight_of_opened (hopen.trans (by rw [← hzero])) hinv' hbelongs

theorem opensRight_of_granted {result : MemHeap.State × ℕ} (hinv : Inv disk s view)
    (hfits : NameFits (subpath path)) (hflags : flags &&& DFS_O_DIRECTORY = 0)
    (hpath : subpath path ≠ []) (habsent : subpath path ∉ view.map Entry.name)
    (hcreate : (freshFd path flags).has DFS_O_CREAT || (freshFd path flags).has DFS_O_WRONLY)
    (halloc : rtMemheapAlloc a s.ramfs.heap disk.heap sizeofDirent = some result)
    (hgranted : Granted disk.toArea s.ramfs.heap (view.flatMap Entry.blocks)
      (itemSize a sizeofDirent) result) :
    OpensRight disk s path flags := by
  have hlookup := hinv.listed.lookup_of_absent hpath habsent
  have hnull : result.2 ≠ rtNull := hgranted.owned.ne_null mem_cons_self
  have hroot : rtNull ≠ disk.root := by
    have := disk.root_pos
    unfold rtNull
    omega
  have hcreated := hinv.create hfits habsent hgranted
  generalize hramfs : DfsRamfs.mk
    { result.1 with memory := newDirent result.1.memory result.2 path }
    (result.2 :: s.ramfs.entries) = ramfs at hcreated
  have hopen : dfsRamfsOpen disk s.ramfs (freshFd path flags) =
      some (Ramfs.openFile a ramfs (freshFd path flags) result.2) := by
    unfold dfsRamfsOpen
    rw [freshFd_path, hlookup, halloc, ← hramfs]
    have hdirectory : (freshFd path flags).has DFS_O_DIRECTORY = false := by
      unfold DfsFd.has freshFd
      rw [hflags]
      rfl
    simp only [hdirectory, hcreate, hroot, hnull, if_true, if_false, map_some]
    rfl
  have hevents : eventsOfOpen disk s path flags 0 = .emptied (subpath path) :: s.history :=
    if_pos ⟨le_rfl, .inl hlookup⟩
  rw [← hevents] at hcreated
  have hself : Leaves (eventsOfOpen disk s path flags 0) (subpath path)
      (if (freshFd path flags).has DFS_O_TRUNC then [] else []) := by
    rw [hevents, ite_self]
    exact Leaves.emptied
  rcases hcreated.openFile (l := []) rfl hself (fun _ _ _ hleaves => hleaves)
    with ⟨hzero, view', hinv', hbelongs⟩
  exact opensRight_of_opened (hopen.trans (by rw [← hzero])) hinv' hbelongs

theorem opensRight (hinv : Inv disk s view) (hzero : 0 ∉ path)
    (hflags : flags &&& DFS_O_DIRECTORY = 0)
    (hshort : (subpath path).length < RAMFS_NAME_MAX) : OpensRight disk s path flags := by
  have hdirectory : (freshFd path flags).has DFS_O_DIRECTORY = false := by
    unfold DfsFd.has freshFd
    rw [hflags]
    rfl
  have hroot : rtNull ≠ disk.root := by
    have := disk.root_pos
    unfold rtNull
    omega
  by_cases hpath : subpath path = []
  · apply opensRight_of_refused (-DFS_STATUS_ENOENT) hinv (by decide)
    unfold dfsRamfsOpen
    rw [freshFd_path, lookup_of_root s.ramfs hpath]
    simp [hdirectory]
  by_cases hname : subpath path ∈ view.map Entry.name
  · rcases mem_map.mp hname with ⟨e, he, heq⟩
    exact hinv.opensRight_of_mem hflags hpath he heq.symm
  have hlookup := hinv.listed.lookup_of_absent hpath hname
  by_cases hcreate : (freshFd path flags).has DFS_O_CREAT || (freshFd path flags).has DFS_O_WRONLY
  · rcases hinv.stored.owned.allocBlock sizeofDirent with ⟨result, halloc, hcases⟩
    rcases hcases with hnull | hgranted
    · apply opensRight_of_refused (-DFS_STATUS_ENOMEM) hinv (by decide)
      unfold dfsRamfsOpen
      rw [freshFd_path, hlookup, halloc, hnull]
      simp [hdirectory, hroot, hcreate]
    · have hfits : NameFits (subpath path) :=
        ⟨hshort, fun hmem => hzero ((dropWhile_sublist _).subset hmem)⟩
      exact hinv.opensRight_of_granted hfits hflags hpath hname hcreate halloc hgranted
  · apply opensRight_of_refused (-DFS_STATUS_ENOENT) hinv (by decide)
    unfold dfsRamfsOpen
    rw [freshFd_path, hlookup]
    simp [hdirectory, hroot, hcreate]

end Inv

theorem currentSize_eq (hinv : Inv disk s view) (he : e ∈ view) (hbelongs : BelongsTo file e) :
    s.currentSize file = e.file.length := by
  unfold State.currentSize
  rw [hbelongs.data]
  exact (hinv.stored.shown e he).dirent.size

theorem Stored.inBlock {area : Area a} {state : MemHeap.State} {off count : ℕ}
    (hstored : Stored area state view) (he : e ∈ view) (hpos : 0 < count)
    (hroom : off + count ≤ e.file.length) : InBlock a state.memory e.data off count := by
  have hshown := hstored.shown e he
  have hne : e.file ≠ [] := ne_nil_of_length_pos (by omega)
  have hdata : e.data ≠ rtNull := fun hnull => hne (hshown.noData hnull)
  have hend := hshown.bytes.room hne
  constructor
  · apply hstored.owned.isUsed_eq
    apply mem_flatMap.mpr
    refine ⟨e, he, ?_⟩
    rw [Entry.blocks_of_data hdata]
    exact mem_cons_of_mem _ (mem_singleton_self _)
  · omega

structure Wrote (disk : Disk a) (s : State) (file : DfsFd) (buf : List UInt8)
    (result : DfsRamfs × DfsFd × ℕ) (view : List Entry) : Prop where
  count : result.2.2 = buf.length
  inv : Inv disk { s with
    ramfs := result.1
    history := .wrote (subpath file.path) file.pos buf :: s.history } view
  belongs : ∃ e ∈ view, BelongsTo result.2.1 e
  inBlock : buf ≠ [] → InBlock a result.1.heap.memory
    (direntData result.1.heap.memory file.data) file.pos buf.length

theorem Inv.copyIn {ramfs : DfsRamfs} {file' : DfsFd} {buf : List UInt8}
    (hinv : Inv disk s (l ++ e :: r)) (hbelongs : BelongsTo file e)
    (hpos : file.pos ≤ e.file.length) (hstored : Stored disk.toArea ramfs.heap (e' :: (l ++ r)))
    (hentries : ramfs.entries = s.ramfs.entries) (haddr : e'.addr = e.addr)
    (hname : e'.name = e.name) (hroom : file.pos + buf.length ≤ e'.file.length)
    (hfile : FileHistory.overwrite e'.file file.pos buf = FileHistory.overwrite e.file file.pos buf)
    (hdata : file'.data = file.data) (hpath : file'.path = file.path)
    (hsame : file'.pos = file.pos) (hsize : file.pos + buf.length ≤ file'.size)
    (hlt : file'.size < 4294967296) :
    ∃ view, Wrote disk s file buf (Ramfs.copyIn ramfs file' buf) view := by
  have hdirent := (hstored.shown e' mem_cons_self).dirent
  have hput := hstored.put hroom
  have hplace : direntData ramfs.heap.memory file'.data = e'.data := by
    rw [hdata, hbelongs.data, ← haddr]
    exact hdirent.data
  have hadd : add32 file'.pos buf.length = file.pos + buf.length := by
    rw [hsame, add32_eq_of_lt (by lia)]
  have hself : Leaves (.wrote (subpath file.path) file.pos buf :: s.history) e.name
      (overwrite e'.file file.pos buf) := by
    rw [hfile, hbelongs.name]
    exact (hinv.files e (by simp)).wrote hpos
  have hothers : ∀ other, other ≠ e.name → ∀ bytes, Leaves s.history other bytes →
      Leaves (.wrote (subpath file.path) file.pos buf :: s.history) other bytes := by
    intro other hne bytes hleaves
    rw [hbelongs.name]
    exact hleaves.wrote_other hne.symm
  unfold Ramfs.copyIn
  rw [hplace, hadd, hsame]
  refine ⟨l ++ { e' with file := overwrite e'.file file.pos buf } :: r, ?_⟩
  constructor
  · rfl
  · exact hinv.replace haddr hname hentries hput hself hothers
  · refine ⟨{ e' with file := overwrite e'.file file.pos buf }, by simp, ?_⟩
    constructor
    · exact hdata.trans (hbelongs.data.trans haddr.symm)
    · dsimp only
      rw [hpath, hbelongs.name, hname]
    · exact hsize
    · exact hlt
  · intro hbuf
    have hkept := (hput.shown _ mem_cons_self).dirent.data
    have hlength : (overwrite e'.file file.pos buf).length = e'.file.length := by
      rw [length_overwrite (by lia), max_eq_left hroom]
    dsimp only [DfsRamfs.setMemory] at hkept ⊢
    rw [hbelongs.data, ← haddr, hkept]
    apply hput.inBlock mem_cons_self (length_pos_iff.mpr hbuf)
    lia

theorem copyIn_nil (ramfs : DfsRamfs) (hpos : file.pos < 4294967296) :
    copyIn ramfs file [] = (ramfs, file, 0) := by
  have hadd : add32 file.pos ([] : List UInt8).length = file.pos := add32_eq_of_lt hpos
  unfold copyIn
  rw [Memory.put_nil, hadd]
  rfl

theorem Inv.write {buf : List UInt8} (hinv : Inv disk s view) (he : e ∈ view)
    (hbelongs : BelongsTo file e) (hsize : SizeFits a (file.pos + buf.length))
    (hdate : buf = [] ∨ file.pos ≤ e.file.length ∧
      if file.size < file.pos + buf.length then e.file.length ≤ file.pos + buf.length
      else file.pos + buf.length ≤ e.file.length) :
    ∃ result, dfsRamfsWrite disk s.ramfs file buf = some result ∧
      ((∃ view, Wrote disk s file buf result view) ∨ buf ≠ [] ∧ result = (s.ramfs, file, 0)) := by
  have hle := hbelongs.pos_le
  have hlt := hbelongs.size_lt
  have hsum : add32 file.pos buf.length = file.pos + buf.length :=
    add32_eq_of_lt (by have := hsize.1; lia)
  have hsum' : add32 buf.length file.pos = file.pos + buf.length := by
    rw [← hsum, add32, add32, Nat.add_comm]
  unfold dfsRamfsWrite
  rw [hsum, hsum']
  rcases append_of_mem he with ⟨l, r, rfl⟩
  have hfirst := hinv.stored.perm perm_middle
  by_cases hgrows : file.pos + buf.length > file.size
  · have hbuf : buf ≠ [] := by
      rintro rfl
      simp at hgrows
      lia
    rcases hdate.resolve_left hbuf with ⟨hpos, hreach⟩
    rw [if_pos hgrows] at hreach ⊢
    rcases hfirst.grow (by lia) hsize hreach with ⟨⟨heap, q⟩, hresult, hcases⟩
    have hdata : direntData s.ramfs.heap.memory file.data = e.data := by
      rw [hbelongs.data]
      exact (hfirst.shown e mem_cons_self).dirent.data
    rw [hdata, hresult, map_some]
    rcases hcases with hnull | ⟨hq, bytes, hlength, htake, hstored⟩
    · rw [Prod.mk.injEq] at hnull
      rw [hnull.1, hnull.2]
      exact ⟨_, rfl, .inr ⟨hbuf, rfl⟩⟩
    · have hn : file.pos + buf.length < 4294967296 := by have := hsize.1; lia
      have hroom : file.pos + buf.length ≤ bytes.length := by lia
      have hcongr := overwrite_congr htake hpos hreach (by lia)
      dsimp only at hq hstored ⊢
      rw [← hbelongs.data] at hstored
      rw [if_neg hq]
      unfold updateDirent
      dsimp only
      rw [direntSize_setSize _ hn]
      exact ⟨_, rfl, .inl (hinv.copyIn hbelongs hpos hstored rfl hbelongs.data rfl hroom hcongr
        rfl rfl rfl le_rfl hn)⟩
  · rw [if_neg hgrows]
    refine ⟨_, rfl, .inl ?_⟩
    by_cases hbuf : buf = []
    · subst hbuf
      rw [copyIn_nil s.ramfs (hle.trans_lt hlt)]
      refine ⟨l ++ e :: r, rfl, ?_, ⟨e, he, hbelongs⟩, fun hne => absurd rfl hne⟩
      exact hinv.replace rfl rfl rfl hfirst (hinv.files e he).wrote_nil
        fun _ _ _ hleaves => hleaves.wrote_nil
    · rcases hdate.resolve_left hbuf with ⟨hpos, hreach⟩
      rw [if_neg hgrows] at hreach
      exact hinv.copyIn hbelongs hpos hfirst rfl rfl rfl hreach rfl rfl rfl rfl (by lia) hlt

theorem Inv.read {len : ℕ} (hinv : Inv disk s view) (he : e ∈ view) (hbelongs : BelongsTo file e)
    (hdate : min len (file.size - file.pos) = min len (e.file.length - file.pos)) :
    ∃ bytes file', dfsFileRead s.ramfs file len = (bytes, file') ∧ BelongsTo file' e ∧
      (∀ k, bytes[k]? =
        if k < len then FileHistory.latest s.history (subpath file.path) (file.pos + k)
        else none) ∧
      (bytes ≠ [] → InBlock a s.ramfs.heap.memory (direntData s.ramfs.heap.memory file.data)
        file.pos bytes.length) := by
  have hle := hbelongs.pos_le
  have hlt := hbelongs.size_lt
  have hshown := hinv.stored.shown e he
  have hrest : sub32 file.size file.pos = file.size - file.pos := sub32_eq_of_le hle hlt
  have hdata : direntData s.ramfs.heap.memory file.data = e.data := by
    rw [hbelongs.data]
    exact hshown.dirent.data
  have hlength : (if len < file.size - file.pos then len else file.size - file.pos) =
      min len (e.file.length - file.pos) := by
    rw [← hdate]
    split_ifs <;> lia
  generalize hcount : min len (e.file.length - file.pos) = count at *
  have hadd : add32 file.pos count = file.pos + count := add32_eq_of_lt (by lia)
  generalize hbytes : s.ramfs.heap.memory.bytes (e.data + file.pos) count = bytes
  have hbytesLength : bytes.length = count := by
    rw [← hbytes]
    simp [Memory.bytes]
  have hread : dfsRamfsRead s.ramfs file len = (bytes, { file with pos := file.pos + count }) := by
    unfold dfsRamfsRead
    dsimp only
    rw [hrest, hdata, hlength, hadd, hbytes]
  have hmoved : BelongsTo { file with pos := file.pos + count } e :=
    ⟨hbelongs.data, hbelongs.name, by dsimp only; lia, hlt⟩
  have hplaces : ∀ k, bytes[k]? =
      if k < len then latest s.history (subpath file.path) (file.pos + k)
      else none := by
    intro k
    rw [hbelongs.name, ← hinv.files e he, ← hbytes, Memory.getElem?_bytes]
    by_cases hk : k < count
    · rw [if_pos hk, if_pos (by lia), getElem?_eq_getElem (by lia), Nat.add_assoc,
        hshown.bytes.byte _ (by lia)]
    · rw [if_neg hk]
      split_ifs with hlen
      · rw [getElem?_eq_none (by lia)]
      · rfl
  have hblock : bytes ≠ [] → InBlock a s.ramfs.heap.memory
      (direntData s.ramfs.heap.memory file.data) file.pos bytes.length := by
    intro hne
    have hpos := length_pos_iff.mpr hne
    rw [hdata]
    exact hinv.stored.inBlock he hpos (by lia)
  unfold dfsFileRead
  rw [hread]
  dsimp only
  split_ifs
  · exact ⟨_, _, rfl, ⟨hmoved.data, hmoved.name, hmoved.pos_le, hmoved.size_lt⟩, hplaces, hblock⟩
  · exact ⟨_, _, rfl, hmoved, hplaces, hblock⟩

theorem BelongsTo.lseek {offset : ℤ} (hbelongs : BelongsTo file e) (hoffset : 0 ≤ offset) :
    BelongsTo (dfsFileLseek file offset).1 e := by
  have hlt := hbelongs.size_lt
  unfold dfsFileLseek dfsRamfsLseek
  by_cases hwithin : offset ≤ toSigned file.size
  · rw [if_pos hwithin]
    dsimp only
    rw [if_pos hoffset]
    refine ⟨hbelongs.data, hbelongs.name, ?_, hlt⟩
    unfold toSigned at hwithin
    dsimp only
    split_ifs at hwithin <;> omega
  · rw [if_neg hwithin]
    exact hbelongs

def Call.descriptor : Call → Option ℕ
  | .open _ _ _ => none
  | .read fd _ => some fd
  | .write fd _ => some fd
  | .lseek fd _ => some fd
  | .close fd => some fd

namespace Inv

variable {fd : ℕ} {call : Call}

section

variable (hinv : Inv disk s view)
include hinv

theorem execute_closed (hcall : call.descriptor = some fd)
    (hfd : s.fds fd = none) : ∃ s' outcome, execute disk s call = some (s', outcome) ∧
      (∃ view, Inv disk s' view) ∧ Served a s call s' outcome := by
  have hrun : execute disk s call = some (s, .badDescriptor) := by
    cases call <;> simp_all [execute, Call.descriptor]
  refine ⟨s, .badDescriptor, hrun, ⟨view, hinv⟩, ?_⟩
  cases call <;> simp_all [Served, Call.descriptor]

theorem execute_read {len : UInt32} (hfd : s.fds fd = some file)
    (hdate : (Call.read fd len).UpToDate s) :
    ∃ s' outcome, execute disk s (.read fd len) = some (s', outcome) ∧
      (∃ view, Inv disk s' view) ∧ Served a s (.read fd len) s' outcome := by
  rcases hinv.fds fd file hfd with ⟨e, he, hbelongs⟩
  have hsame := hdate file hfd
  rw [currentSize_eq hinv he hbelongs] at hsame
  rcases hinv.read he hbelongs hsame with ⟨bytes, file', hread, hbelongs', hplaces, hblock⟩
  have hrun : execute disk s (.read fd len) =
      some ({ s with fds := update s.fds fd (some file') }, .got bytes) := by
    simp [execute, hfd, hread]
  refine ⟨_, _, hrun, ⟨view, hinv.setFd ?_⟩, ?_⟩
  · intro other hother
    rw [← some.inj hother]
    exact ⟨e, he, hbelongs'⟩
  · intro other hother
    rw [← some.inj (hfd.symm.trans hother)]
    exact ⟨bytes, rfl, hplaces, hblock⟩

theorem execute_write {buf : List UInt8} (hfd : s.fds fd = some file)
    (hlegal : (Call.write fd buf).Legal a s) (hdate : (Call.write fd buf).UpToDate s) :
    ∃ s' outcome, execute disk s (.write fd buf) = some (s', outcome) ∧
      (∃ view, Inv disk s' view) ∧ Served a s (.write fd buf) s' outcome := by
  rcases hinv.fds fd file hfd with ⟨e, he, hbelongs⟩
  have hreach := hdate file hfd
  rw [currentSize_eq hinv he hbelongs] at hreach
  rcases hinv.write he hbelongs (hlegal file hfd) hreach with ⟨⟨ramfs, file', count⟩, hwrite, hcases⟩
  have hrun : execute disk s (.write fd buf) =
      some ({ ramfs := ramfs
              fds := update s.fds fd (some file')
              history := eventsOfWrite s file buf count }, .wrote count) := by
    simp [execute, hfd, hwrite]
  refine ⟨_, _, hrun, ?_⟩
  rcases hcases with ⟨view', hwrote⟩ | ⟨hbuf, hnone⟩
  · have hevents : eventsOfWrite s file buf count =
        .wrote (subpath file.path) file.pos buf :: s.history := if_pos hwrote.count
    rw [hevents]
    constructor
    · refine ⟨view', hwrote.inv.setFd ?_⟩
      intro other hother
      rw [← some.inj hother]
      exact hwrote.belongs
    · intro other hother
      rw [← some.inj (hfd.symm.trans hother)]
      refine ⟨count, rfl, .inl ⟨hwrote.count, ?_, hwrote.inBlock⟩⟩
      intro name q
      rw [hinv.byteAt_eq]
      exact hwrote.inv.byteAt_eq name q
  · rw [Prod.mk.injEq, Prod.mk.injEq] at hnone
    rcases hnone with ⟨rfl, rfl, rfl⟩
    have hevents : eventsOfWrite s file' buf 0 = s.history :=
      if_neg fun hlength => hbuf (eq_nil_of_length_eq_zero hlength.symm)
    rw [hevents]
    constructor
    · refine ⟨view, hinv.setFd ?_⟩
      intro other hother
      rw [← some.inj hother]
      exact ⟨e, he, hbelongs⟩
    · intro other hother
      exact ⟨0, rfl, .inr ⟨rfl, fun _ _ => rfl⟩⟩

/-- A call on up-to-date descriptors returns and is served as the history says. -/
theorem execute_spec (hlegal : call.Legal a s) (hdate : call.UpToDate s) :
    ∃ s' outcome, execute disk s call = some (s', outcome) ∧
      (∃ view, Inv disk s' view) ∧ Served a s call s' outcome := by
  cases call with
  | «open» fd path flags =>
    rcases hinv.opensRight hlegal.2.1 hlegal.2.2 hdate
      with ⟨ramfs, slot, result, hopen, view', hinv', hslot⟩
    have hrun : execute disk s (.open fd path flags) =
        some ({ ramfs := ramfs
                fds := update s.fds fd slot
                history := eventsOfOpen disk s path flags result }, .opened result) := by
      simp [execute, hopen]
    exact ⟨_, _, hrun, ⟨view', hinv'.setFd hslot⟩, trivial⟩
  | read fd len =>
    cases hfd : s.fds fd with
    | none => exact hinv.execute_closed rfl hfd
    | some file => exact hinv.execute_read hfd hdate
  | write fd buf =>
    cases hfd : s.fds fd with
    | none => exact hinv.execute_closed rfl hfd
    | some file => exact hinv.execute_write hfd hlegal hdate
  | lseek fd offset =>
    cases hfd : s.fds fd with
    | none => exact hinv.execute_closed rfl hfd
    | some file =>
      rcases hinv.fds fd file hfd with ⟨e, he, hbelongs⟩
      have hrun : execute disk s (.lseek fd offset) =
          some ({ s with fds := update s.fds fd (some (dfsFileLseek file offset).1) },
            .sought (dfsFileLseek file offset).2) := by
        simp [execute, hfd]
      refine ⟨_, _, hrun, ⟨view, hinv.setFd ?_⟩, trivial⟩
      intro other hother
      rw [← some.inj hother]
      exact ⟨e, he, hbelongs.lseek hlegal.1⟩
  | close fd =>
    cases hfd : s.fds fd with
    | none => exact hinv.execute_closed rfl hfd
    | some file =>
      have hrun : execute disk s (.close fd) =
          some ({ s with fds := update s.fds fd none }, .closed 0) := by
        simp [execute, hfd, dfsFileClose, dfsRamfsClose]
      exact ⟨_, _, hrun, ⟨view, hinv.setFd fun other hother => nomatch hother⟩, trivial⟩

end

theorem of_init (hinit : (ramSystem disk).init s) : Inv disk s [] := by
  rcases hinit with ⟨⟨before, hramfs⟩, hfds, hhistory⟩
  constructor
  · rw [hramfs]
    rfl
  · constructor
    · rw [hramfs]
      exact Owned.of_init ⟨before, rfl, rfl⟩
    · simp
  · exact nodup_nil
  · simp
  · intro name _ q
    rw [hhistory]
    rfl
  · intro fd file hfd
    rw [hfds fd] at hfd
    cases hfd

end Inv

/-- In every run whose descriptors are up to date the disk shows the history. -/
theorem inv_of_reachable (hreach : (ramSystem disk).Reachable (fun s call => call.UpToDate s) s) :
    ∃ view, Inv disk s view := by
  apply hreach.invariant (P := fun s => ∃ view, Inv disk s view)
  · intro s hinit
    exact ⟨[], Inv.of_init hinit⟩
  · rintro s call s' ⟨view, hinv⟩ hdate ⟨hlegal, outcome, hrun⟩
    rcases hinv.execute_spec hlegal hdate with ⟨next, outcome', hrun', hnext, -⟩
    have heq := some.inj (hrun.symm.trans hrun')
    rw [(Prod.mk.inj heq).1]
    exact hnext

/-- In every run whose calls do not rely on a size that is out of date, every byte of a file is the
one which was written there last, by whatever descriptor; and the next such call returns, reads
these bytes up to the end of the file, writes the bytes it is given and no others, and stays within
the block of the file. -/
theorem files_keep_bytes (disk : Disk a)
    (hreach : (ramSystem disk).Reachable (fun s call => call.UpToDate s) s) :
    (∀ name q, s.ramfs.byteAt name q = FileHistory.latest s.history name q) ∧
      ∀ call : Call, call.Legal a s → call.UpToDate s →
        ∃ s' outcome, execute disk s call = some (s', outcome) ∧ Served a s call s' outcome := by
  rcases inv_of_reachable hreach with ⟨view, hinv⟩
  refine ⟨hinv.byteAt_eq, ?_⟩
  intro call hlegal hdate
  rcases hinv.execute_spec hlegal hdate with ⟨s', outcome, hrun, -, hserved⟩
  exact ⟨s', outcome, hrun, hserved⟩

section Sample

instance decidableForallSome {α : Type} (o : Option α) (p : α → Prop) [DecidablePred p] :
    Decidable (∀ x, o = some x → p x) :=
  match o with
  | none => isTrue fun _ hx => nomatch hx
  | some x => decidable_of_iff (p x) (by simp)

instance (size : ℕ) : Decidable (SizeFits a size) := inferInstanceAs (Decidable (_ ∧ _))

instance (call : Call) : Decidable (call.Legal a s) :=
  match call with
  | .open _ _ _ => inferInstanceAs (Decidable (_ ∧ _))
  | .read _ _ => inferInstanceAs (Decidable True)
  | .write fd buf => inferInstanceAs (Decidable
      (∀ file, s.fds fd = some file → SizeFits a (file.pos + buf.length)))
  | .lseek _ _ => inferInstanceAs (Decidable (_ ∧ _))
  | .close _ => inferInstanceAs (Decidable True)

instance (call : Call) : Decidable (call.UpToDate s) :=
  match call with
  | .open _ path _ => inferInstanceAs (Decidable ((subpath path).length < RAMFS_NAME_MAX))
  | .read fd len => inferInstanceAs (Decidable (∀ file, s.fds fd = some file →
      min len.toNat (file.size - file.pos) = min len.toNat (s.currentSize file - file.pos)))
  | .write fd buf => inferInstanceAs (Decidable (∀ file, s.fds fd = some file → buf = [] ∨
      file.pos ≤ s.currentSize file ∧
        if file.size < file.pos + buf.length then s.currentSize file ≤ file.pos + buf.length
        else file.pos + buf.length ≤ s.currentSize file))
  | .lseek _ _ => inferInstanceAs (Decidable True)
  | .close _ => inferInstanceAs (Decidable True)

def sampleDisk : Disk wordAlign where
  toArea := sampleArea
  root := 0x10000100
  root_pos := by decide
  root_fits := by decide

def sampleStart : Ramfs.State where
  ramfs := dfsRamfsCreate sampleDisk ⟨fun _ => 0, fun _ => ⟨0, 0, 0, 0, 0, 0, 0⟩⟩
  fds _ := none
  history := []

theorem init_sampleStart : (ramSystem sampleDisk).init sampleStart :=
  ⟨⟨_, rfl⟩, fun _ => rfl, rfl⟩

def samplePath : Name := [0x2f, 0x66]

def ramRun (test : State → Call → Bool) (calls : List Call) : Option Ramfs.State :=
  calls.foldlM
    (fun s call =>
      if test s call ∧ call.Legal wordAlign s then
        (Ramfs.execute sampleDisk s call).map Prod.fst
      else none)
    sampleStart

theorem reachable_ramRun {test : State → Call → Bool} {guard : State → Call → Prop}
    {calls : List Call} (htest : ∀ s call, test s call = true → guard s call)
    (hrun : ramRun test calls = some s) : (ramSystem sampleDisk).Reachable guard s := by
  apply TransitionSystem.Reachable.foldlM _ (.start init_sampleStart) hrun
  intro s call s' hstep
  split_ifs at hstep with hmet
  rcases map_eq_some_iff.mp hstep with ⟨⟨next, outcome⟩, hnext, rfl⟩
  exact ⟨htest s call hmet.1, hmet.2, outcome, hnext⟩

end Sample

theorem files_keep_bytes_in_sample :
    ∃ s, (ramSystem sampleDisk).Reachable (fun s call => call.UpToDate s) s ∧
      s.ramfs.byteAt [0x66] 3 = some 0x64 ∧
      (∀ name q, s.ramfs.byteAt name q = FileHistory.latest s.history name q) ∧
      ∀ call : Call, call.Legal wordAlign s → call.UpToDate s →
        ∃ s' outcome, Ramfs.execute sampleDisk s call = some (s', outcome) ∧
          Served wordAlign s call s' outcome := by
  have hrun : (ramRun (fun s call => decide (call.UpToDate s))
      [.open 3 samplePath 0x102, .write 3 [0x61, 0x62, 0x63, 0x64], .open 4 samplePath 0x2,
        .read 4 10, .lseek 4 2, .write 4 [0x78]]).map
        (fun s => s.ramfs.byteAt [0x66] 3) = some (some 0x64) := by
    decide +kernel
  rcases map_eq_some_iff.mp hrun with ⟨s, hs, hbyte⟩
  have hreach : (ramSystem sampleDisk).Reachable (fun s call => call.UpToDate s) s :=
    reachable_ramRun (fun s call htest => of_decide_eq_true htest) hs
  exact ⟨s, hreach, hbyte, files_keep_bytes sampleDisk hreach⟩

/-- A second descriptor writes with the size it read when it was opened. -/
theorem not_served_of_stale_size :
    ∃ s, (ramSystem sampleDisk).Reachable (fun _ _ => True) s ∧
      (Call.write 4 [0x78]).Legal wordAlign s ∧ s.ramfs.byteAt [0x66] 3 = some 0x64 ∧
      ∃ s', Ramfs.execute sampleDisk s (.write 4 [0x78]) = some (s', .wrote 1) ∧
        s'.ramfs.byteAt [0x66] 3 = none ∧ ¬Served wordAlign s (.write 4 [0x78]) s' (.wrote 1) := by
  have hrun : (ramRun (fun _ _ => true) [.open 3 samplePath 0x102, .open 4 samplePath 0x2,
        .write 3 [0x61, 0x62, 0x63, 0x64]]).map
        (fun s =>
          (decide ((Call.write 4 [0x78]).Legal wordAlign s) &&
              s.ramfs.byteAt [0x66] 3 == some 0x64 && (s.fds 4).map DfsFd.pos == some 0,
            (execute sampleDisk s (.write 4 [0x78])).map
              fun result => (result.2, result.1.ramfs.byteAt [0x66] 3))) =
      some (true, some (.wrote 1, none)) := by
    decide +kernel
  rcases map_eq_some_iff.mp hrun with ⟨s, hs, hview⟩
  simp only [Prod.mk.injEq, Bool.and_eq_true, decide_eq_true_eq, beq_iff_eq] at hview
  rcases hview with ⟨⟨⟨hlegal, hbyte⟩, hpos⟩, hwrite⟩
  rcases map_eq_some_iff.mp hpos with ⟨file, hfile, hzero⟩
  rcases map_eq_some_iff.mp hwrite with ⟨⟨s', outcome⟩, hexecute, hresult⟩
  rw [Prod.mk.injEq] at hresult
  rcases hresult with ⟨rfl, hnone⟩
  refine ⟨s, reachable_ramRun (fun _ _ _ => trivial) hs, hlegal, hbyte, s', hexecute, hnone, ?_⟩
  intro hserved
  rcases hserved file hfile with ⟨count, hcount, ⟨-, hbytes, -⟩ | ⟨rfl, -⟩⟩
  · have hthird := hbytes [0x66] 3
    rw [hnone, hzero, if_neg fun hin => absurd hin.2.2 (by decide), hbyte] at hthird
    cases hthird
  · cases hcount

end RtThread.Ramfs
