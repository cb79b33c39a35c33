import RtThread.RamfsRuns

/-!
# The names of the RAM file system

The directory of a ramfs under `open`, `unlink` and `rename`.  Looking up a path drops the
slashes at its front; an entry that is created gets its name without them, and one that is
renamed gets the path as it comes.
-/

namespace RtThread.Ramfs

open Function List MemHeap Word
open Option (bind_some map_some)

variable {a : AlignSize} {disk : Disk a}

def DFS_STATUS_EBADF : ℤ := 9

def DFS_STATUS_EBUSY : ℤ := 16

def DFS_STATUS_EEXIST : ℤ := 17

/-! ## Unlinking and renaming -/

/-- `rt_list_remove`; the root takes itself out of its list and leaves it empty. -/
def listRemove (disk : Disk a) (ramfs : DfsRamfs) (dirent : ℕ) : DfsRamfs :=
  { ramfs with entries := if dirent = disk.root then [] else ramfs.entries.erase dirent }

def freeDirent (a : AlignSize) (heap : MemHeap.State) (dirent : ℕ) : MemHeap.State :=
  let data := direntData heap.memory dirent
  let heap := if data ≠ rtNull then rtMemheapFree a heap data else heap
  rtMemheapFree a heap dirent

def dfsRamfsUnlink (disk : Disk a) (ramfs : DfsRamfs) (path : Name) : DfsRamfs × ℤ :=
  let dirent := dfsRamfsLookup disk ramfs path
  if dirent = rtNull then (ramfs, -DFS_STATUS_ENOENT)
  else
    let ramfs := listRemove disk ramfs dirent
    ({ ramfs with heap := freeDirent a ramfs.heap dirent }, 0)

/-- `dfs_subdir` has no path for the mount point itself; `none` reads through its null pointer. -/
def dfsRamfsRename (disk : Disk a) (ramfs : DfsRamfs) (oldpath newpath : Option Name) :
    Option (DfsRamfs × ℤ) :=
  newpath.bind fun newpath =>
    if dfsRamfsLookup disk ramfs newpath ≠ rtNull then some (ramfs, -DFS_STATUS_EEXIST)
    else
      oldpath.bind fun oldpath =>
        let dirent := dfsRamfsLookup disk ramfs oldpath
        if dirent = rtNull then some (ramfs, -DFS_STATUS_ENOENT)
        else
          some (ramfs.setMemory
            (ramfs.heap.memory.strncpy (nameAddr dirent) newpath RAMFS_NAME_MAX), 0)

/-! ## The calls of DFS -/

structure Volume where
  ramfs : DfsRamfs
  fds : ℕ → Option DfsFd

def Volume.isOpen (v : Volume) (fdMax : ℕ) (mountpath : Name) : Bool :=
  (List.range fdMax).any fun fd => (v.fds fd).any fun file => file.path == mountpath

/-- The paths are those below the mount point; `fd_is_open` compares with a path of its own,
which is empty for the mount point. -/
inductive NameCall where
  | open (fd : ℕ) (path : Name) (flags : UInt32)
  | close (fd : ℕ)
  | unlink (path mountpath : Name)
  | rename (oldpath newpath : Option Name)

def dfsFileUnlink (disk : Disk a) (fdMax : ℕ) (v : Volume) (path mountpath : Name) : DfsRamfs × ℤ :=
  if v.isOpen fdMax mountpath then (v.ramfs, -DFS_STATUS_EBUSY)
  else dfsRamfsUnlink disk v.ramfs path

def Volume.execute (disk : Disk a) (fdMax : ℕ) (v : Volume) : NameCall → Option (Volume × ℤ)
  | .open fd path flags =>
    (dfsFileOpen disk v.ramfs path flags).map fun (ramfs, file, result) =>
      ({ ramfs := ramfs, fds := update v.fds fd file }, result)
  | .close fd =>
    match v.fds fd with
    | none => some (v, -DFS_STATUS_EBADF)
    | some file =>
      let (file, result) := dfsFileClose file
      some ({ v with fds := update v.fds fd file }, result)
  | .unlink path mountpath =>
    let (ramfs, result) := dfsFileUnlink disk fdMax v path mountpath
    some ({ v with ramfs := ramfs }, result)
  | .rename oldpath newpath =>
    (dfsRamfsRename disk v.ramfs oldpath newpath).map fun (ramfs, result) =>
      ({ v with ramfs := ramfs }, result)

def IsPath (path : Name) : Prop := path.head? = some 0x2f ∧ 0 ∉ path

def NameCall.Legal (fdMax : ℕ) (v : Volume) : NameCall → Prop
  | .open fd path _ => fd < fdMax ∧ v.fds fd = none ∧ IsPath path
  | .close _ => True
  | .unlink path mountpath => IsPath path ∧ (mountpath = path ∨ path = [0x2f] ∧ mountpath = [])
  | .rename oldpath newpath =>
    (∀ path, oldpath = some path → IsPath path) ∧ ∀ path, newpath = some path → IsPath path

/-! ## The directory as a map -/

def DfsRamfs.contents (ramfs : DfsRamfs) (name : Name) : Option (List UInt8) :=
  (ramfs.find name).map fun dirent =>
    ramfs.heap.memory.bytes (direntData ramfs.heap.memory dirent)
      (direntSize ramfs.heap.memory dirent)

def direntBlocks (m : Memory) (dirent : ℕ) : List ℕ :=
  dirent :: if direntData m dirent = rtNull then [] else [direntData m dirent]

def DfsRamfs.blocks (ramfs : DfsRamfs) : List ℕ :=
  ramfs.entries.flatMap (direntBlocks ramfs.heap.memory)

def DfsRamfs.IsMap (ramfs : DfsRamfs) : Prop :=
  ∃ files : List (Name × List UInt8), (files.map Prod.fst).Nodup ∧
    files.length = ramfs.entries.length ∧
    ∀ name file, ramfs.contents name = some file ↔ (name, file) ∈ files

def Volume.Kept (disk : Disk a) (v : Volume) : Prop :=
  v.ramfs.IsMap ∧ MemHeap.Owned disk.toArea ⟨v.ramfs.heap, v.ramfs.blocks⟩

def Creates (flags : UInt32) : Prop :=
  flags &&& DFS_O_DIRECTORY = 0 ∧ (flags &&& DFS_O_CREAT ≠ 0 ∨ flags &&& DFS_O_WRONLY ≠ 0)

def openedFile (ramfs : DfsRamfs) (path : Name) (flags : UInt32) : List UInt8 :=
  if flags &&& DFS_O_DIRECTORY = 0 ∧ flags &&& DFS_O_TRUNC ≠ 0 then []
  else (ramfs.contents (subpath path)).getD []

/-- A call that fails changes no file; one that succeeds only the files it names. -/
def NameServed (disk : Disk a) (v : Volume) (call : NameCall) (v' : Volume) (result : ℤ) : Prop :=
  (result < 0 → ∀ name, v'.ramfs.contents name = v.ramfs.contents name) ∧ match call with
    | .open fd path flags => 0 ≤ result →
        (∃ file, v'.fds fd = some file ∧ file.data = dfsRamfsLookup disk v'.ramfs path) ∧
          ∀ name, v'.ramfs.contents name =
            if name = subpath path ∧ name ≠ [] then some (openedFile v.ramfs path flags)
            else v.ramfs.contents name
    | .close _ => ∀ name, v'.ramfs.contents name = v.ramfs.contents name
    | .unlink path _ =>
      (subpath path = [] → result < 0) ∧ (0 ≤ result → (v.ramfs.contents (subpath path)).isSome ∧
          (∀ p ∈ direntBlocks v.ramfs.heap.memory (dfsRamfsLookup disk v.ramfs path),
            p ∉ v'.ramfs.blocks) ∧
          ∀ name, v'.ramfs.contents name =
            if name = subpath path then none else v.ramfs.contents name)
    | .rename oldpath newpath => 0 ≤ result → ∃ old new, oldpath = some old ∧ newpath = some new ∧
          (v.ramfs.contents (subpath old)).isSome ∧
          ∀ name, v'.ramfs.contents name = if name = subpath new then v.ramfs.contents (subpath old)
            else if name = subpath old then none
            else v.ramfs.contents name

/-- A name that is created leaves room for its NUL; the root is not unlinked, unless it is open
and compared so; and a renaming is refused, because the new name is there or the old one is
not. -/
def NameCall.Harmless (disk : Disk a) (fdMax : ℕ) (v : Volume) : NameCall → Prop
  | .open _ path flags => Creates flags → (subpath path).length < RAMFS_NAME_MAX
  | .close _ => True
  | .unlink path mountpath => subpath path ≠ [] ∨ v.isOpen fdMax mountpath = true
  | .rename oldpath newpath => ∃ new, newpath = some new ∧
      (dfsRamfsLookup disk v.ramfs new ≠ rtNull ∨
        ∃ old, oldpath = some old ∧ dfsRamfsLookup disk v.ramfs old = rtNull)

def nameSystem (disk : Disk a) (fdMax : ℕ) : TransitionSystem Volume NameCall where
  init v := ∃ view, Listed disk v.ramfs view
  step v call v' := call.Legal fdMax v ∧ ∃ result, v.execute disk fdMax call = some (v', result)

/-! ## Reading the directory -/

variable {ramfs ramfs' : DfsRamfs} {view view' l r rest : List Entry} {e e' : Entry}
  {name : Name} {path : Name} {flags : UInt32} {heap : MemHeap.State} {area : Area a}

namespace Listed

section

variable (hlisted : Listed disk ramfs view)
include hlisted

theorem contents_of_mem (he : e ∈ view) : ramfs.contents e.name = some e.file := by
  have hshown := hlisted.stored.shown e he
  rw [DfsRamfs.contents, hlisted.find_of_mem he, map_some, hshown.dirent.data,
    hshown.dirent.size]
  congr 1
  apply ext_getElem?
  intro k
  rw [Memory.getElem?_bytes]
  by_cases hk : k < e.file.length
  · rw [if_pos hk, hshown.bytes.byte k hk, getElem?_eq_getElem hk]
  · rw [if_neg hk, getElem?_eq_none (not_lt.mp hk)]

theorem contents_of_absent (hname : name ∉ view.map Entry.name) : ramfs.contents name = none := by
  rw [DfsRamfs.contents, hlisted.find_of_absent hname]
  rfl

/-- A file has the contents of its entry. -/
theorem contents_iff (name : Name) (file : List UInt8) :
    ramfs.contents name = some file ↔ ∃ e ∈ view, e.name = name ∧ e.file = file := by
  constructor
  · intro hfile
    by_cases hname : name ∈ view.map Entry.name
    · obtain ⟨e, he, heq⟩ := mem_map.mp hname
      rw [← heq, hlisted.contents_of_mem he] at hfile
      exact ⟨e, he, heq, Option.some.inj hfile⟩
    · rw [hlisted.contents_of_absent hname] at hfile
      cases hfile
  · intro ⟨e, he, hname, hfile⟩
    rw [← hname, hlisted.contents_of_mem he, hfile]

theorem contents_other (hlisted' : Listed disk ramfs' view')
    (hsame : ∀ e, e.name = name → (e ∈ view ↔ e ∈ view')) :
    ramfs'.contents name = ramfs.contents name := by
  apply Option.ext
  intro file
  rw [hlisted.contents_iff, hlisted'.contents_iff]
  constructor
  · intro ⟨e, he, hname, hfile⟩
    exact ⟨e, (hsame e hname).mpr he, hname, hfile⟩
  · intro ⟨e, he, hname, hfile⟩
    exact ⟨e, (hsame e hname).mp he, hname, hfile⟩

theorem blocks_eq : ramfs.blocks = view.flatMap Entry.blocks := by
  rw [DfsRamfs.blocks, hlisted.entries, flatMap_map]
  apply flatMap_congr
  intro e he
  rw [direntBlocks, (hlisted.stored.shown e he).dirent.data]
  rfl

end

theorem kept {v : Volume} (hlisted : Listed disk v.ramfs view) : v.Kept disk := by
  constructor
  · refine ⟨view.map fun e => (e.name, e.file), ?_, ?_, ?_⟩
    · rw [map_map]
      exact hlisted.names
    · rw [hlisted.entries, length_map, length_map]
    · intro name file
      rw [hlisted.contents_iff, mem_map]
      constructor
      · intro ⟨e, he, hname, hfile⟩
        exact ⟨e, he, Prod.ext hname hfile⟩
      · intro ⟨e, he, heq⟩
        exact ⟨e, he, congrArg Prod.fst heq, congrArg Prod.snd heq⟩
  · rw [hlisted.blocks_eq]
    exact hlisted.stored.owned

section

variable (hlisted : Listed disk ramfs (l ++ e :: r))
include hlisted

theorem name_notMem : e.name ∉ (l ++ r).map Entry.name := by
  have hnames := hlisted.names
  rw [map_append, map_cons, nodup_middle, nodup_cons, ← map_append]
    at hnames
  exact hnames.1

theorem blocks_apart : ∀ p ∈ e.blocks, p ∉ (l ++ r).flatMap Entry.blocks := by
  have hfirst := (hlisted.stored.perm perm_middle).owned.live_nodup
  intro p hp hrest
  exact (nodup_append.mp hfirst).2.2 p hp p hrest rfl

theorem replace (haddr : e'.addr = e.addr)
    (hname : e'.name = e.name) (hentries : ramfs'.entries = ramfs.entries)
    (hstored : Stored disk.toArea ramfs'.heap (e' :: (l ++ r))) :
    Listed disk ramfs' (l ++ e' :: r) where
  entries := by
    rw [hentries, hlisted.entries]
    simp [haddr]
  stored := hstored.perm perm_middle.symm
  names := by
    have hmap : (l ++ e' :: r).map Entry.name = (l ++ e :: r).map Entry.name := by
      simp [hname]
    rw [hmap]
    exact hlisted.names

theorem contents_replace
    (hlisted' : Listed disk ramfs' (l ++ e' :: r)) (hname : e'.name = e.name) (name : Name) :
    ramfs'.contents name = if name = e.name then some e'.file else ramfs.contents name := by
  by_cases hself : name = e.name
  · rw [if_pos hself, hself, ← hname]
    exact hlisted'.contents_of_mem (by simp)
  · rw [if_neg hself]
    apply hlisted.contents_other hlisted'
    intro other hother
    have hne : other ≠ e := fun heq => hself (by rw [← hother, heq])
    have hne' : other ≠ e' := fun heq => hself (by rw [← hother, heq, hname])
    simp [hne, hne']

end

end Listed

/-! ## Unlinking -/

theorem Stored.unlink (hstored : Stored area heap (e :: rest)) :
    Stored area (freeDirent a heap e.addr) rest := by
  have hshown := hstored.shown e mem_cons_self
  have hrest : ∀ e' ∈ rest, e'.Shown a heap.memory :=
    fun e' he => hstored.shown e' (mem_cons_of_mem e he)
  have hframe : ∀ {heap' : MemHeap.State}, Owned area ⟨heap', rest.flatMap Entry.blocks⟩ →
      (∀ q ∈ rest.flatMap Entry.blocks, SameBlock a heap.memory heap'.memory q) →
      Stored area heap' rest := by
    intro heap' howned hsame
    refine ⟨howned, fun e' he => (hrest e' he).frame fun p hp => hsame p ?_⟩
    exact mem_flatMap.mpr ⟨e', he, hp⟩
  unfold freeDirent
  rw [hshown.dirent.data]
  by_cases hdata : e.data = rtNull
  · have howned := hstored.owned
    rw [flatMap_cons, Entry.blocks_of_null hdata] at howned
    have hnot : ¬e.data ≠ rtNull := not_not_intro hdata
    obtain ⟨hfreed, hsame⟩ := howned.freeBlock
    simp only [if_neg hnot]
    exact hframe hfreed hsame
  · obtain ⟨hfreed, hsame⟩ := (hstored.data_first hdata).freeBlock
    obtain ⟨hfreed', hsame'⟩ := hfreed.freeBlock
    simp only [if_pos (show e.data ≠ rtNull from hdata)]
    apply hframe hfreed'
    intro q hq
    exact (hsame q (mem_cons_of_mem _ hq)).trans (hsame' q hq)

namespace Listed

theorem unlink (hlisted : Listed disk ramfs (l ++ e :: r)) : Listed disk
      { entries := ramfs.entries.erase e.addr
        heap := freeDirent a ramfs.heap e.addr } (l ++ r) where
  entries := by
    have hfirst : e.addr ∉ l.map Entry.addr := by
      intro hmem
      obtain ⟨other, hother, haddr⟩ := mem_map.mp hmem
      apply hlisted.blocks_apart e.addr mem_cons_self
      rw [← haddr]
      exact addr_mem_blocks (mem_append_left r hother)
    rw [hlisted.entries, map_append, map_cons, erase_append_right _ hfirst,
      erase_cons_head, map_append]
  stored := (hlisted.stored.perm perm_middle).unlink
  names := by
    have hnames := hlisted.names
    rw [map_append, map_cons, nodup_middle, nodup_cons, ← map_append]
      at hnames
    exact hnames.2

theorem contents_unlink (hlisted : Listed disk ramfs (l ++ e :: r))
    (hlisted' : Listed disk ramfs' (l ++ r)) (name : Name) :
    ramfs'.contents name = if name = e.name then none else ramfs.contents name := by
  by_cases hself : name = e.name
  · rw [if_pos hself, hself]
    exact hlisted'.contents_of_absent hlisted.name_notMem
  · rw [if_neg hself]
    apply hlisted.contents_other hlisted'
    intro other hother
    have hne : other ≠ e := fun heq => hself (by rw [← hother, heq])
    simp [hne]

end Listed

/-! ## Opening -/

theorem Disk.root_ne_null (disk : Disk a) : disk.root ≠ rtNull := by
  have hpos := disk.root_pos
  unfold rtNull
  omega

theorem freshFd_has (flag : UInt32) :
    (freshFd path flags).has flag = true ↔ flags &&& flag ≠ 0 := bne_iff_ne

namespace Listed

section

variable (hlisted : Listed disk ramfs view)
include hlisted

theorem lookup_cases (path : Name) :
    subpath path = [] ∧ dfsRamfsLookup disk ramfs path = disk.root ∨
      (∃ e ∈ view, subpath path = e.name ∧ subpath path ≠ [] ∧
        dfsRamfsLookup disk ramfs path = e.addr) ∨
      subpath path ∉ view.map Entry.name ∧ subpath path ≠ [] ∧
        dfsRamfsLookup disk ramfs path = rtNull := by
  by_cases hroot : subpath path = []
  · exact .inl ⟨hroot, lookup_of_root ramfs hroot⟩
  · right
    by_cases hname : subpath path ∈ view.map Entry.name
    · obtain ⟨e, he, heq⟩ := mem_map.mp hname
      exact .inl ⟨e, he, heq.symm, hroot, hlisted.lookup_of_mem hroot he heq.symm⟩
    · exact .inr ⟨hname, hroot, hlisted.lookup_of_absent hroot hname⟩

theorem create {result : MemHeap.State × ℕ}
    (hfits : NameFits (subpath path)) (habsent : subpath path ∉ view.map Entry.name)
    (hgranted : Granted disk.toArea ramfs.heap (view.flatMap Entry.blocks)
      (itemSize a sizeofDirent) result) : Listed disk
      { heap := { result.1 with memory := newDirent result.1.memory result.2 path }
        entries := result.2 :: ramfs.entries }
      (⟨result.2, subpath path, rtNull, []⟩ :: view) where
  entries := by
    rw [hlisted.entries]
    rfl
  stored := hlisted.stored.create hfits hgranted
  names := nodup_cons.mpr ⟨habsent, hlisted.names⟩

theorem contents_create
    (hlisted' : Listed disk ramfs' (e :: view)) (name : Name) :
    ramfs'.contents name = if name = e.name then some e.file else ramfs.contents name := by
  by_cases hself : name = e.name
  · rw [if_pos hself, hself]
    exact hlisted'.contents_of_mem mem_cons_self
  · rw [if_neg hself]
    apply hlisted.contents_other hlisted'
    intro other hother
    have hne : other ≠ e := fun heq => hself (by rw [← hother, heq])
    simp [hne]

end

theorem openFile (hlisted : Listed disk ramfs (l ++ e :: r)) (hroot : subpath path ≠ [])
    (hname : subpath path = e.name) (flags : UInt32) :
    ∃ ramfs' file view', Ramfs.openFile a ramfs (freshFd path flags) e.addr = (ramfs', file, 0) ∧
      Listed disk ramfs' view' ∧ file.data = dfsRamfsLookup disk ramfs' path ∧
      ∀ name, ramfs'.contents name =
        if name = e.name then some (if flags &&& DFS_O_TRUNC ≠ 0 then [] else e.file)
        else ramfs.contents name := by
  unfold Ramfs.openFile
  by_cases htrunc : flags &&& DFS_O_TRUNC ≠ 0
  · have hlisted' : Listed disk (truncateFile a ramfs e.addr)
        (l ++ { e with data := rtNull, file := [] } :: r) :=
      hlisted.replace rfl rfl (truncateFile_entries ramfs e.addr)
        (hlisted.stored.perm perm_middle).truncate
    have hmem : ({ e with data := rtNull, file := [] } : Entry) ∈
        l ++ { e with data := rtNull, file := [] } :: r :=
      mem_append_right l mem_cons_self
    rw [if_pos ((freshFd_has _).mpr htrunc)]
    refine ⟨_, _, _, rfl, hlisted', ?_, ?_⟩
    · exact (hlisted'.lookup_of_mem hroot hmem hname).symm
    · intro name
      rw [if_pos htrunc]
      exact hlisted.contents_replace hlisted' rfl name
  · have hno : ¬(freshFd path flags).has DFS_O_TRUNC = true := fun hset =>
      htrunc ((freshFd_has _).mp hset)
    rw [if_neg hno]
    refine ⟨_, _, _, rfl, hlisted, ?_, ?_⟩
    · exact (hlisted.lookup_of_mem hroot (by simp) hname).symm
    · intro name
      rw [if_neg htrunc]
      exact hlisted.contents_replace hlisted rfl name

end Listed

def OpensName (disk : Disk a) (ramfs : DfsRamfs) (path : Name) (flags : UInt32) : Prop :=
  (∃ file result, dfsRamfsOpen disk ramfs (freshFd path flags) = some (ramfs, file, result) ∧
    result < 0) ∨
  ∃ ramfs' file view', dfsRamfsOpen disk ramfs (freshFd path flags) = some (ramfs', file, 0) ∧
    Listed disk ramfs' view' ∧ file.data = dfsRamfsLookup disk ramfs' path ∧
    ∀ name, ramfs'.contents name =
      if name = subpath path ∧ name ≠ [] then some (openedFile ramfs path flags)
      else ramfs.contents name

namespace Listed

section

variable (hlisted : Listed disk ramfs view)
include hlisted

theorem opensName_directory
    (hflag : flags &&& DFS_O_DIRECTORY ≠ 0) : OpensName disk ramfs path flags := by
  have hdirectory : (freshFd path flags).has DFS_O_DIRECTORY = true := (freshFd_has _).mpr hflag
  unfold OpensName dfsRamfsOpen
  rw [freshFd_path]
  simp only [if_pos hdirectory]
  by_cases hcreat : (freshFd path flags).has DFS_O_CREAT = true
  · rw [if_pos hcreat]
    exact .inl ⟨_, _, rfl, by decide⟩
  · rw [if_neg hcreat]
    by_cases hnull : dfsRamfsLookup disk ramfs path = rtNull
    · rw [if_pos hnull]
      exact .inl ⟨_, _, rfl, by decide⟩
    · rw [if_neg hnull]
      refine .inr ⟨_, _, view, rfl, hlisted, rfl, ?_⟩
      intro name
      by_cases hself : name = subpath path ∧ name ≠ []
      · have hfile : openedFile ramfs path flags = (ramfs.contents (subpath path)).getD [] :=
          if_neg fun hboth => hflag hboth.1
        rw [if_pos hself, hfile, hself.1]
        obtain ⟨hroot, _⟩ | ⟨e, he, hname, _, _⟩ | ⟨_, _, habsent⟩ := hlisted.lookup_cases path
        · exact absurd (hself.1.trans hroot) hself.2
        · rw [hname]
          exact (hlisted.contents_of_mem he).trans (by rw [hlisted.contents_of_mem he]; rfl)
        · contradiction
      · rw [if_neg hself]

theorem opensName_mem (hflag : flags &&& DFS_O_DIRECTORY = 0)
    (he : e ∈ view) (hname : subpath path = e.name) (hroot : subpath path ≠ [])
    (hlookup : dfsRamfsLookup disk ramfs path = e.addr) : OpensName disk ramfs path flags := by
  have hdirectory : ¬(freshFd path flags).has DFS_O_DIRECTORY = true := fun hset =>
    (freshFd_has _).mp hset hflag
  have hne : e.addr ≠ disk.root := (hlisted.root_lt he).ne'
  obtain ⟨l, r, rfl⟩ := append_of_mem he
  obtain ⟨ramfs', file, view', hopen, hlisted', hdata, hcontents⟩ :=
    hlisted.openFile hroot hname flags
  right
  refine ⟨ramfs', file, view', ?_, hlisted', hdata, ?_⟩
  · unfold dfsRamfsOpen
    rw [freshFd_path, hlookup]
    simp only [if_neg hdirectory, if_neg hne, if_neg (hlisted.addr_ne_null he)]
    rw [hopen]
  · intro name
    have hfile : openedFile ramfs path flags =
        if flags &&& DFS_O_TRUNC ≠ 0 then [] else e.file := by
      rw [openedFile, hname, hlisted.contents_of_mem he, Option.getD_some]
      simp [hflag]
    rw [hcontents, hfile, hname]
    by_cases hself : name = e.name
    · have hboth : name = e.name ∧ name ≠ [] := ⟨hself, hself ▸ hname ▸ hroot⟩
      rw [if_pos hself, if_pos hboth]
    · rw [if_neg hself, if_neg fun hboth => hself hboth.1]

theorem opensName_absent (hflag : flags &&& DFS_O_DIRECTORY = 0) (hzero : 0 ∉ path)
    (hshort : Creates flags → (subpath path).length < RAMFS_NAME_MAX)
    (habsent : subpath path ∉ view.map Entry.name) (hroot : subpath path ≠ [])
    (hlookup : dfsRamfsLookup disk ramfs path = rtNull) : OpensName disk ramfs path flags := by
  have hdirectory : ¬(freshFd path flags).has DFS_O_DIRECTORY = true := fun hset =>
    (freshFd_has _).mp hset hflag
  have hne : rtNull ≠ disk.root := disk.root_ne_null.symm
  unfold OpensName dfsRamfsOpen
  rw [freshFd_path, hlookup]
  simp only [if_neg hdirectory, if_neg hne, if_true]
  by_cases hcreate : ((freshFd path flags).has DFS_O_CREAT || (freshFd path flags).has DFS_O_WRONLY)
      = true
  · have hcreates : Creates flags := by
      rw [Bool.or_eq_true, freshFd_has, freshFd_has] at hcreate
      exact ⟨hflag, hcreate⟩
    rw [if_pos hcreate]
    obtain ⟨result, halloc, hnull | hgranted⟩ := hlisted.stored.owned.allocBlock sizeofDirent
    · rw [halloc, hnull]
      exact .inl ⟨_, _, rfl, by decide⟩
    · have hfits : NameFits (subpath path) :=
        ⟨hshort hcreates, fun hmem => hzero ((dropWhile_sublist _).subset hmem)⟩
      have hnew : ¬result.2 = rtNull := hgranted.owned.ne_null mem_cons_self
      have hcreated := hlisted.create hfits habsent hgranted
      obtain ⟨ramfs', file, view', hopen, hlisted', hdata, hcontents⟩ :=
        hcreated.openFile (l := []) hroot rfl flags
      right
      refine ⟨ramfs', file, view', ?_, hlisted', hdata, ?_⟩
      · rw [halloc, map_some, if_neg hnew]
        exact congrArg some hopen
      · intro name
        have hfile : openedFile ramfs path flags = [] := by
          rw [openedFile, hlisted.contents_of_absent habsent, Option.getD_none, ite_self]
        rw [hcontents, hfile, hlisted.contents_create hcreated, ite_self]
        by_cases hself : name = subpath path
        · have hboth : name = subpath path ∧ name ≠ [] := ⟨hself, hself ▸ hroot⟩
          rw [if_pos hself, if_pos hboth]
        · rw [if_neg hself, if_neg hself, if_neg fun hboth => hself hboth.1]
  · rw [if_neg hcreate]
    exact .inl ⟨_, _, rfl, by decide⟩

theorem opensName (hzero : 0 ∉ path)
    (hshort : Creates flags → (subpath path).length < RAMFS_NAME_MAX) :
    OpensName disk ramfs path flags := by
  by_cases hflag : flags &&& DFS_O_DIRECTORY = 0
  · obtain ⟨hroot, hlookup⟩ | ⟨e, he, hname, hroot, hlookup⟩ | ⟨habsent, hroot, hlookup⟩ :=
      hlisted.lookup_cases path
    · have hdirectory : ¬(freshFd path flags).has DFS_O_DIRECTORY = true := fun hset =>
        (freshFd_has _).mp hset hflag
      left
      refine ⟨freshFd path flags, -DFS_STATUS_ENOENT, ?_, by decide⟩
      unfold dfsRamfsOpen
      rw [freshFd_path, hlookup]
      simp only [if_neg hdirectory, if_true]
    · exact hlisted.opensName_mem hflag he hname hroot hlookup
    · exact hlisted.opensName_absent hflag hzero hshort habsent hroot hlookup
  · exact hlisted.opensName_directory hflag

end

end Listed

/-! ## The calls -/

section Calls

variable {v v' : Volume} {fdMax fd : ℕ} {call : NameCall} {result : ℤ}

/-- The call returns, does what its name says, and the directory stays one. -/
def Serves (disk : Disk a) (fdMax : ℕ) (v : Volume) (call : NameCall) : Prop :=
  ∃ v' result, v.execute disk fdMax call = some (v', result) ∧
    NameServed disk v call v' result ∧ ∃ view, Listed disk v'.ramfs view

section

variable (hlisted : Listed disk v.ramfs view)
include hlisted

theorem serves_open (hzero : 0 ∉ path)
    (hshort : Creates flags → (subpath path).length < RAMFS_NAME_MAX) :
    Serves disk fdMax v (.open fd path flags) := by
  obtain ⟨file, result, hopen, hfailed⟩ | ⟨ramfs', file, view', hopen, hlisted', hdata, hcontents⟩ :=
    hlisted.opensName hzero hshort
  · have hrun : v.execute disk fdMax (.open fd path flags) =
        some ({ v with fds := update v.fds fd none }, result) := by
      unfold freshFd at hopen
      simp only [Volume.execute, dfsFileOpen, hopen, map_some, if_pos hfailed]
    exact ⟨_, _, hrun, ⟨fun _ _ => rfl, fun hopened => absurd hopened (not_le.mpr hfailed)⟩,
      view, hlisted⟩
  · have hrun : v.execute disk fdMax (.open fd path flags) =
        some ({ ramfs := ramfs'
                fds := update v.fds fd
                  (some { file with flags := file.flags ||| DFS_F_OPEN }) }, 0) := by
      unfold freshFd at hopen
      simp only [Volume.execute, dfsFileOpen, hopen, map_some, lt_irrefl, if_false]
    refine ⟨_, _, hrun, ⟨fun hfailed => absurd hfailed (lt_irrefl 0), fun _ => ⟨?_, hcontents⟩⟩,
      view', hlisted'⟩
    exact ⟨_, update_self _ _ _, hdata⟩

theorem serves_close : Serves disk fdMax v (.close fd) := by
  cases hfd : v.fds fd with
  | none =>
    have hrun : v.execute disk fdMax (.close fd) = some (v, -DFS_STATUS_EBADF) := by
      simp only [Volume.execute, hfd]
    exact ⟨_, _, hrun, ⟨fun _ _ => rfl, fun _ => rfl⟩, view, hlisted⟩
  | some file =>
    have hrun : v.execute disk fdMax (.close fd) =
        some ({ v with fds := update v.fds fd none }, 0) := by
      simp [Volume.execute, hfd, dfsFileClose, dfsRamfsClose]
    exact ⟨_, _, hrun, ⟨fun _ _ => rfl, fun _ => rfl⟩, view, hlisted⟩

theorem serves_unlink {mountpath : Name}
    (hharmless : subpath path ≠ [] ∨ v.isOpen fdMax mountpath = true) :
    Serves disk fdMax v (.unlink path mountpath) := by
  by_cases hopen : v.isOpen fdMax mountpath = true
  · have hrun : v.execute disk fdMax (.unlink path mountpath) = some (v, -DFS_STATUS_EBUSY) := by
      simp only [Volume.execute, dfsFileUnlink, if_pos hopen]
    have hfailed : ¬(0 : ℤ) ≤ -DFS_STATUS_EBUSY := by decide
    exact ⟨_, _, hrun, ⟨fun _ _ => rfl, fun _ => not_le.mp hfailed,
      fun hdone => absurd hdone hfailed⟩, view, hlisted⟩
  · have hroot := hharmless.resolve_right hopen
    obtain ⟨hpath, _⟩ | ⟨e, he, hname, _, hlookup⟩ | ⟨_, _, hlookup⟩ := hlisted.lookup_cases path
    · contradiction
    · obtain ⟨l, r, rfl⟩ := append_of_mem he
      have hne : ¬e.addr = disk.root := (hlisted.root_lt he).ne'
      have hunlinked := hlisted.unlink
      have hrun : v.execute disk fdMax (.unlink path mountpath) =
          some ({ v with ramfs := { entries := v.ramfs.entries.erase e.addr
                                    heap := freeDirent a v.ramfs.heap e.addr } }, 0) := by
        simp only [Volume.execute, dfsFileUnlink, if_neg hopen, dfsRamfsUnlink, hlookup,
          if_neg (hlisted.addr_ne_null he), listRemove, if_neg hne]
      refine ⟨_, _, hrun, ⟨fun hfailed => absurd hfailed (lt_irrefl 0),
        fun hpath => absurd hpath hroot, fun _ => ⟨?_, ?_, ?_⟩⟩, l ++ r, hunlinked⟩
      · rw [hname, hlisted.contents_of_mem he]
        rfl
      · intro p hp
        have hblocks : direntBlocks v.ramfs.heap.memory e.addr = e.blocks := by
          rw [direntBlocks, (hlisted.stored.shown e he).dirent.data]
          rfl
        rw [hlookup, hblocks] at hp
        rw [hunlinked.blocks_eq]
        exact hlisted.blocks_apart p hp
      · rw [hname]
        exact hlisted.contents_unlink hunlinked
    · have hrun : v.execute disk fdMax (.unlink path mountpath) = some (v, -DFS_STATUS_ENOENT) := by
        simp only [Volume.execute, dfsFileUnlink, if_neg hopen, dfsRamfsUnlink, hlookup, if_true]
      have hfailed : ¬(0 : ℤ) ≤ -DFS_STATUS_ENOENT := by decide
      exact ⟨_, _, hrun, ⟨fun _ _ => rfl, fun _ => not_le.mp hfailed,
        fun hdone => absurd hdone hfailed⟩, view, hlisted⟩

theorem serves_rename {oldpath newpath : Option Name}
    (hharmless : (NameCall.rename oldpath newpath).Harmless disk fdMax v) :
    Serves disk fdMax v (.rename oldpath newpath) := by
  obtain ⟨new, rfl, hnew | ⟨old, rfl, hold⟩⟩ := hharmless
  · have hrun : v.execute disk fdMax (.rename oldpath (some new)) =
        some (v, -DFS_STATUS_EEXIST) := by
      simp only [Volume.execute, dfsRamfsRename, bind_some, if_pos hnew, map_some]
    have hfailed : ¬(0 : ℤ) ≤ -DFS_STATUS_EEXIST := by decide
    exact ⟨_, _, hrun, ⟨fun _ _ => rfl, fun hdone => absurd hdone hfailed⟩, view, hlisted⟩
  · by_cases hnew : dfsRamfsLookup disk v.ramfs new ≠ rtNull
    · have hrun : v.execute disk fdMax (.rename (some old) (some new)) =
          some (v, -DFS_STATUS_EEXIST) := by
        simp only [Volume.execute, dfsRamfsRename, bind_some, if_pos hnew, map_some]
      have hfailed : ¬(0 : ℤ) ≤ -DFS_STATUS_EEXIST := by decide
      exact ⟨_, _, hrun, ⟨fun _ _ => rfl, fun hdone => absurd hdone hfailed⟩, view, hlisted⟩
    · have hrun : v.execute disk fdMax (.rename (some old) (some new)) =
          some (v, -DFS_STATUS_ENOENT) := by
        simp only [Volume.execute, dfsRamfsRename, bind_some, if_neg hnew, hold, if_true,
          map_some]
      have hfailed : ¬(0 : ℤ) ≤ -DFS_STATUS_ENOENT := by decide
      exact ⟨_, _, hrun, ⟨fun _ _ => rfl, fun hdone => absurd hdone hfailed⟩, view, hlisted⟩

theorem serves (hlegal : call.Legal fdMax v)
    (hharmless : call.Harmless disk fdMax v) : Serves disk fdMax v call := by
  cases call with
  | «open» fd path flags => exact serves_open hlisted hlegal.2.2.2 hharmless
  | close fd => exact serves_close hlisted
  | unlink path mountpath => exact serves_unlink hlisted hharmless
  | rename oldpath newpath => exact serves_rename hlisted hharmless

end

/-! ## Renamings that are not refused -/

theorem subpath_head {c : UInt8} {rest : Name} (hpath : subpath path = c :: rest) : c ≠ 0x2f := by
  have hhead := head?_dropWhile_not (fun b : UInt8 => decide (b = 0x2f)) path
  unfold subpath at hpath
  rw [hpath] at hhead
  exact of_decide_eq_false hhead

def renamed (ramfs : DfsRamfs) (dirent : ℕ) (newpath : Name) : DfsRamfs :=
  ramfs.setMemory (ramfs.heap.memory.strncpy (nameAddr dirent) newpath RAMFS_NAME_MAX)

theorem renamed_outside {dirent b : ℕ} (newpath : Name)
    (hout : b < dirent ∨ dirent + sizeofDirent ≤ b) :
    (renamed ramfs dirent newpath).heap.memory b = ramfs.heap.memory b := by
  apply Memory.strncpy_outside
  unfold nameAddr RAMFS_NAME_MAX
  unfold sizeofDirent at hout
  omega

theorem Listed.renamed_shows {dirent : ℕ} (hlisted : Listed disk ramfs view) (newpath : Name)
    (hdirent : dirent = disk.root ∨ ∃ e ∈ view, dirent = e.addr) (he : e ∈ view)
    (hne : e.addr ≠ dirent) :
    (renamed ramfs dirent newpath).heap.memory.ShowsString (nameAddr e.addr) e.name := by
  have hshown := hlisted.stored.shown e he
  obtain hroot | ⟨d, hd, hdirent⟩ := hdirent
  · apply hshown.dirent.name.congr
    intro b hlow _
    have hstart := hlisted.stored.owned.start_lt (addr_mem_blocks he)
    have hfits := disk.root_fits
    apply renamed_outside
    unfold nameAddr at hlow
    unfold sizeofDirent
    omega
  · obtain ⟨l, r, rfl⟩ := append_of_mem hd
    have hfirst := hlisted.stored.perm perm_middle
    have hroom := (hfirst.shown d mem_cons_self).dirent.room
    have hother : e ∈ l ++ r := by
      cases mem_cons.mp (perm_middle.mem_iff.mp he) with
      | inl hself => exact absurd (hself ▸ hdirent.symm) hne
      | inr hrest => exact hrest
    have hwrites : ∀ b, b < d.addr ∨ d.addr + sizeofDirent ≤ b →
        (renamed ramfs d.addr newpath).heap.memory b = ramfs.heap.memory b :=
      fun b hb => renamed_outside newpath hb
    obtain ⟨_, _, hsame⟩ := writeDirent hfirst.owned hroom hwrites
    rw [hdirent]
    exact (hshown.dirent.frame hshown.fits
      (hsame _ (mem_append_right _ (addr_mem_blocks hother)))).name

theorem Listed.find_renamed {dirent : ℕ} {newpath : Name} (hlisted : Listed disk ramfs view)
    (hdirent : dirent = disk.root ∨ ∃ e ∈ view, dirent = e.addr) (hpath : IsPath newpath)
    (hroot : subpath newpath ≠ []) (habsent : subpath newpath ∉ view.map Entry.name) :
    (renamed ramfs dirent newpath).find (subpath newpath) = none := by
  apply find?_eq_none.mpr
  intro other hother
  have hentries : (renamed ramfs dirent newpath).entries = view.map Entry.addr := hlisted.entries
  rw [hentries] at hother
  obtain ⟨e, he, rfl⟩ := mem_map.mp hother
  by_cases hself : e.addr = dirent
  · obtain ⟨rest, hslash⟩ : ∃ rest, newpath = 0x2f :: rest := head?_eq_some_iff.mp hpath.1
    have hfirst : (renamed ramfs dirent newpath).heap.memory (nameAddr e.addr) = 0x2f := by
      have hput := @Memory.put_inside (nameAddr dirent)
        ((newpath ++ List.replicate RAMFS_NAME_MAX 0).take RAMFS_NAME_MAX) 0
        ramfs.heap.memory (by rw [Memory.length_padded]; decide)
      rw [hself]
      refine hput.trans ?_
      rw [getElem_take, hslash]
      rfl
    cases hsub : subpath newpath with
    | nil => contradiction
    | cons c t =>
      have hne : ((0x2f : UInt8) == c) = false := beq_false_of_ne (subpath_head hsub).symm
      simp [Memory.sameString, hfirst, hne]
  · have hshows := hlisted.renamed_shows newpath hdirent he hself
    rw [hshows.sameString_iff (hlisted.stored.shown e he).fits.noZero]
    intro hsame
    exact habsent (hsame.2 ▸ mem_map_of_mem he)

/-- A renaming does what it promises exactly where it is refused. -/
theorem serves_rename_iff {oldpath newpath : Option Name} (hlisted : Listed disk v.ramfs view)
    (hlegal : (NameCall.rename oldpath newpath).Legal fdMax v) :
    Serves disk fdMax v (.rename oldpath newpath) ↔
      (NameCall.rename oldpath newpath).Harmless disk fdMax v := by
  constructor
  · intro ⟨v', result, hrun, hserved, _⟩
    by_contra hharmful
    cases newpath with
    | none => cases hrun
    | some new =>
      have hnew : ¬dfsRamfsLookup disk v.ramfs new ≠ rtNull := fun hfound =>
        hharmful ⟨new, rfl, .inl hfound⟩
      cases oldpath with
      | none =>
        simp only [Volume.execute, dfsRamfsRename, bind_some, if_neg hnew,
          Option.bind_none, Option.map_none] at hrun
        cases hrun
      | some old =>
        have hold : ¬dfsRamfsLookup disk v.ramfs old = rtNull := fun hmissing =>
          hharmful ⟨new, rfl, .inr ⟨old, rfl, hmissing⟩⟩
        have hdone : some ({ v with
            ramfs := renamed v.ramfs (dfsRamfsLookup disk v.ramfs old) new }, (0 : ℤ)) =
            some (v', result) := by
          rw [← hrun]
          simp only [Volume.execute, dfsRamfsRename, bind_some, if_neg hnew,
            if_neg hold, map_some, renamed]
        cases hdone
        obtain ⟨_, _, hfrom, hto, hsome, hcontents⟩ := hserved.2 (le_refl 0)
        cases hfrom
        cases hto
        obtain ⟨_, hroot⟩ | ⟨e, he, _, _, hfound⟩ | ⟨habsent, hroot, _⟩ := hlisted.lookup_cases new
        · exact hnew (hroot ▸ disk.root_ne_null)
        · exact hnew (hfound ▸ hlisted.addr_ne_null he)
        · have hdirent : dfsRamfsLookup disk v.ramfs old = disk.root ∨
              ∃ e ∈ view, dfsRamfsLookup disk v.ramfs old = e.addr := by
            obtain ⟨_, hfound⟩ | ⟨e, he, _, _, hfound⟩ | ⟨_, _, hmissing⟩ :=
              hlisted.lookup_cases old
            · exact .inl hfound
            · exact .inr ⟨e, he, hfound⟩
            · contradiction
          have hlost := hcontents (subpath new)
          rw [if_pos rfl, DfsRamfs.contents,
            hlisted.find_renamed hdirent (hlegal.2 new rfl) hroot habsent] at hlost
          rw [← hlost] at hsome
          cases hsome
  · exact serves_rename hlisted

/-- In every run whose calls are harmless the directory stays a map, whose files are all that is
in use; and the next harmless call returns and serves its caller. -/
theorem names_of_run (disk : Disk a) (fdMax : ℕ)
    (hreach : (nameSystem disk fdMax).Reachable (fun v call => call.Harmless disk fdMax v) v) :
    v.Kept disk ∧ ∀ call : NameCall, call.Legal fdMax v → call.Harmless disk fdMax v →
        ∃ v' result, v.execute disk fdMax call = some (v', result) ∧
          NameServed disk v call v' result := by
  have hlisted : ∃ view, Listed disk v.ramfs view := by
    apply hreach.invariant (P := fun v => ∃ view, Listed disk v.ramfs view)
    · intro v hinit
      exact hinit
    · intro v call v' ⟨view, hlisted⟩ hharmless ⟨hlegal, result, hrun⟩
      obtain ⟨next, result', hrun', _, hnext⟩ := serves hlisted hlegal hharmless
      have heq := Option.some.inj (hrun.symm.trans hrun')
      rw [(Prod.mk.inj heq).1]
      exact hnext
  obtain ⟨view, hlisted⟩ := hlisted
  refine ⟨hlisted.kept, ?_⟩
  intro call hlegal hharmless
  obtain ⟨v', result, hrun, hserved, _⟩ := serves hlisted hlegal hharmless
  exact ⟨v', result, hrun, hserved⟩

end Calls

section Sample

instance (path : Name) : Decidable (IsPath path) := inferInstanceAs (Decidable (_ ∧ _))

instance (flags : UInt32) : Decidable (Creates flags) := inferInstanceAs (Decidable (_ ∧ _))

instance (fdMax : ℕ) (v : Volume) (call : NameCall) : Decidable (call.Legal fdMax v) :=
  match call with
  | .open _ _ _ => inferInstanceAs (Decidable (_ ∧ _))
  | .close _ => inferInstanceAs (Decidable True)
  | .unlink _ _ => inferInstanceAs (Decidable (_ ∧ _))
  | .rename _ _ => inferInstanceAs (Decidable (_ ∧ _))

def sampleVolume : Volume where
  ramfs := sampleStart.ramfs
  fds _ := none

theorem init_sampleVolume (fdMax : ℕ) : (nameSystem sampleDisk fdMax).init sampleVolume :=
  ⟨[], (Inv.of_init init_sampleStart).listed⟩

def nameRun (test : Volume → NameCall → Bool) (calls : List NameCall) : Option Volume :=
  calls.foldlM
    (fun v call =>
      if test v call ∧ call.Legal 4 v then (v.execute sampleDisk 4 call).map Prod.fst else none)
    sampleVolume

theorem reachable_nameRun {test : Volume → NameCall → Bool} {guard : Volume → NameCall → Prop}
    {calls : List NameCall} {v : Volume} (htest : ∀ v call, test v call = true → guard v call)
    (hrun : nameRun test calls = some v) : (nameSystem sampleDisk 4).Reachable guard v := by
  apply TransitionSystem.Reachable.foldlM _ (.start (init_sampleVolume 4)) hrun
  intro v call v' hstep
  split_ifs at hstep with hmet
  obtain ⟨⟨next, result⟩, hnext, rfl⟩ := Option.map_eq_some_iff.mp hstep
  exact ⟨htest v call hmet.1, hmet.2, result, hnext⟩

def isShort (_ : Volume) : NameCall → Bool
  | .open _ path _ => decide ((subpath path).length < RAMFS_NAME_MAX)
  | .close _ => true
  | .unlink path _ => decide (subpath path ≠ [])
  | .rename _ _ => false

theorem harmless_of_isShort (v : Volume) (call : NameCall) (hshort : isShort v call = true) :
    call.Harmless sampleDisk 4 v := by
  cases call with
  | «open» fd path flags => exact fun _ => of_decide_eq_true hshort
  | close fd => trivial
  | unlink path mountpath => exact .inl (of_decide_eq_true hshort)
  | rename oldpath newpath => cases hshort

def pathA : Name := [0x2f, 0x61]

def pathB : Name := [0x2f, 0x62]

end Sample

theorem names_of_run_sample :
    ∃ v, (nameSystem sampleDisk 4).Reachable (fun v call => call.Harmless sampleDisk 4 v) v ∧
      v.ramfs.contents [0x61] = none ∧ v.ramfs.contents [0x62] = some [] ∧
      v.Kept sampleDisk := by
  have hrun : (nameRun isShort
      [.open 0 pathA 0x102, .close 0, .open 1 pathB 0x102, .unlink pathA pathA]).map
        (fun v => (v.ramfs.contents [0x61], v.ramfs.contents [0x62])) = some (none, some []) := by
    decide +kernel
  obtain ⟨v, hv, hcontents⟩ := Option.map_eq_some_iff.mp hrun
  have hreach : (nameSystem sampleDisk 4).Reachable
      (fun v call => call.Harmless sampleDisk 4 v) v :=
    reachable_nameRun harmless_of_isShort hv
  exact ⟨v, hreach, congrArg Prod.fst hcontents, congrArg Prod.snd hcontents,
    (names_of_run sampleDisk 4 hreach).1⟩

theorem serves_missing_rename :
    Serves sampleDisk 4 sampleVolume (.rename (some pathA) (some pathB)) := by
  have hmissing : dfsRamfsLookup sampleDisk sampleVolume.ramfs pathA = rtNull := by decide
  refine (serves_rename_iff (Inv.of_init init_sampleStart).listed ⟨?_, ?_⟩).mpr
    ⟨pathB, rfl, .inr ⟨pathA, rfl, hmissing⟩⟩
  · intro path hpath
    cases hpath
    decide
  · intro path hpath
    cases hpath
    decide

/-- `rename` changes nothing and returns zero; so does `unlink` of the root. -/
theorem not_nameServed_rename :
    ∃ v, (nameSystem sampleDisk 4).Reachable (fun _ _ => True) v ∧
      (∃ v', (NameCall.rename (some pathA) (some pathB)).Legal 4 v ∧
        v.execute sampleDisk 4 (.rename (some pathA) (some pathB)) = some (v', 0) ∧
        ¬NameServed sampleDisk v (.rename (some pathA) (some pathB)) v' 0) ∧
      ∃ v', (NameCall.unlink [0x2f] []).Legal 4 v ∧
        v.execute sampleDisk 4 (.unlink [0x2f] []) = some (v', 0) ∧
        ¬NameServed sampleDisk v (.unlink [0x2f] []) v' 0 := by
  have hrun : (nameRun (fun _ _ => true) [.open 0 pathA 0x102, .close 0]).map
      (fun v =>
        (v.ramfs.contents [0x61], (v.execute sampleDisk 4 (.rename (some pathA) (some pathB))).map
            fun next => (next.2, next.1.ramfs.contents [0x62]),
          (v.execute sampleDisk 4 (.unlink [0x2f] [])).map Prod.snd)) =
      some (some [], some (0, none), some 0) := by
    decide +kernel
  obtain ⟨v, hv, hview⟩ := Option.map_eq_some_iff.mp hrun
  simp only [Prod.mk.injEq] at hview
  obtain ⟨hfile, hrename, hunlink⟩ := hview
  obtain ⟨⟨v', result⟩, hexecute, hresult⟩ := Option.map_eq_some_iff.mp hrename
  obtain ⟨⟨v'', result'⟩, hexecute', hresult'⟩ := Option.map_eq_some_iff.mp hunlink
  simp only [Prod.mk.injEq] at hresult
  obtain ⟨rfl, hlost⟩ := hresult
  cases hresult'
  refine ⟨v, reachable_nameRun (fun _ _ _ => trivial) hv, ⟨v', ?_, hexecute, ?_⟩,
    v'', ?_, hexecute', ?_⟩
  · constructor
    · intro path hpath
      cases hpath
      decide
    · intro path hpath
      cases hpath
      decide
  · intro hserved
    obtain ⟨_, _, hold, hnew, hsome, hcontents⟩ := hserved.2 (le_refl 0)
    cases hold
    cases hnew
    have hthere := hcontents [0x62]
    rw [hlost, if_pos (show ([0x62] : Name) = subpath pathB by decide)] at hthere
    rw [← hthere] at hsome
    cases hsome
  · exact ⟨by decide, .inr ⟨rfl, rfl⟩⟩
  · intro hserved
    exact lt_irrefl 0 (hserved.2.1 rfl)

end RtThread.Ramfs
