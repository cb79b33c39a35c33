import RtThread.DfsLookup
import RtThread.DfsNormalize

/-!
# Whether a file is open

`dfs_file_open` stores the name of a file in its descriptor, and `fd_is_open`
looks for a name that it derives from the path by itself.
-/

namespace RtThread.Dfs

open Option

open SlashPath (ProperName Normalised Contains render resolve resolveNames)

structure FsFlags where
  fullpath : FsType → Bool
  unlink : FsType → Bool

structure FoundFs where
  fs : ℕ
  path : Path
  ops : FsType

def findFs (table : List Mounted) (fullpath : Path) : Option FoundFs :=
  (filesystemLookup table fullpath).bind fun fs =>
    table[fs]?.bind fun iter => iter.path.bind fun path => iter.ops.map fun ops => ⟨fs, path, ops⟩

def FoundFs.fileName (flags : FsFlags) (f : FoundFs) (fullpath : Path) : Path :=
  if flags.fullpath f.ops then fullpath else mountName f.path fullpath

def FoundFs.comparedName (f : FoundFs) (fullpath : Path) : Path :=
  if f.path = ['/'] then fullpath else fullpath.drop f.path.length

structure Files where
  cfg : Config
  flags : FsFlags
  workingDirectory : Option Path
  mounts : Mounts
  fds : Table

/-- `fd_is_open`; `memory` tells whether there is memory for its copy of the path. -/
def fdIsOpen (s : Files) (memory : Bool) (pathname : Path) : ℤ :=
  match dfsNormalizePath s.workingDirectory memory pathname with
  | none => -1
  | some fullpath =>
    match findFs s.mounts.table fullpath with
    | none => -1
    | some f =>
      if (List.range s.cfg.fdMax).any fun index =>
          (s.fds index).fs == some f.fs &&
            (s.fds index).path == some (f.comparedName fullpath) then 0
      else -1

inductive UnlinkResult
  | called (fs : ℕ) (name : Path)
  | returned (result : ℤ)
  deriving DecidableEq

def ENOENT : ℤ := 2
def EBUSY : ℤ := 16
def EINVAL : ℤ := 22
def ENOSYS : ℤ := 38

/-- `dfs_file_unlink`; the answers of the heap are to its copy of the path and to that of
`fd_is_open`. -/
def dfsFileUnlink (s : Files) (memory openMemory : Bool) (path : Path) : UnlinkResult :=
  match dfsNormalizePath s.workingDirectory memory path with
  | none => .returned (-EINVAL)
  | some fullpath =>
    match findFs s.mounts.table fullpath with
    | none => .returned (-ENOENT)
    | some f =>
      if fdIsOpen s openMemory fullpath = 0 then .returned (-EBUSY)
      else if s.flags.unlink f.ops then .called f.fs (f.fileName s.flags fullpath)
      else .returned (-ENOSYS)

def OpenIn (t : Table) (n fs : ℕ) (name : Path) : Prop :=
  ∃ index < n, (t index).fs = some fs ∧ (t index).path = some name

def Files.Open (s : Files) (fullpath : Path) : Prop :=
  ∃ f ∈ findFs s.mounts.table fullpath,
    OpenIn s.fds (s.cfg.firstFd + s.cfg.fdMax) f.fs (f.fileName s.flags fullpath)

/-- The descriptor behind `dfs_file_open`, as far as the file is concerned. -/
def bindFile (s : Files) (pathname : Path) (d : DfsFd) : Option DfsFd :=
  (dfsNormalizePath s.workingDirectory true pathname).bind fun fullpath =>
    (findFs s.mounts.table fullpath).map fun f =>
      { d with fs := some f.fs, path := some (f.fileName s.flags fullpath) }

/-- The slots in use hold what `dfs_file_open` leaves in them. -/
def Files.Opened (s : Files) : Prop :=
  ∀ index < s.cfg.firstFd + s.cfg.fdMax, ∀ fs ∈ (s.fds index).fs,
    ∃ pathname, bindFile s pathname (s.fds index) = some (s.fds index)

/-- A file is told to be open when it is, and an open one is not unlinked. -/
structure Files.ChecksOpen (s : Files) (memory : Bool) (pathname : Path) : Prop where
  isOpen : fdIsOpen s memory pathname = 0 ↔
    ∃ fullpath ∈ dfsNormalizePath s.workingDirectory true pathname, s.Open fullpath
  unlink : ∀ fs name, dfsFileUnlink s true memory pathname = .called fs name →
    ∀ fullpath ∈ dfsNormalizePath s.workingDirectory true pathname, ¬ s.Open fullpath

def FoundFs.SameName (flags : FsFlags) (f : FoundFs) (fullpath : Path) : Prop :=
  f.path = ['/'] ∨ flags.fullpath f.ops = false ∧ fullpath ≠ f.path

instance (flags : FsFlags) (f : FoundFs) (fullpath : Path) :
    Decidable (f.SameName flags fullpath) :=
  inferInstanceAs (Decidable (_ ∨ _))

/-- With memory and the same names the file is not open behind the first `DFS_FD_MAX` slots only;
with other names it is open exactly when the other name is bound in the first slots; without
memory it is not open. -/
def Files.FitsFile (s : Files) (memory : Bool) (fullpath : Path) (f : FoundFs) : Prop :=
  if memory then
    if f.SameName s.flags fullpath then
      OpenIn s.fds (s.cfg.firstFd + s.cfg.fdMax) f.fs (f.fileName s.flags fullpath) →
        OpenIn s.fds s.cfg.fdMax f.fs (f.fileName s.flags fullpath)
    else
      (OpenIn s.fds (s.cfg.firstFd + s.cfg.fdMax) f.fs (f.fileName s.flags fullpath) ↔
        OpenIn s.fds s.cfg.fdMax f.fs (f.comparedName fullpath))
  else ¬ OpenIn s.fds (s.cfg.firstFd + s.cfg.fdMax) f.fs (f.fileName s.flags fullpath)

def Files.Fits (s : Files) (memory : Bool) (pathname : Path) : Prop :=
  ∀ fullpath ∈ dfsNormalizePath s.workingDirectory true pathname,
    ∀ f ∈ findFs s.mounts.table fullpath, s.FitsFile memory fullpath f

section Names

variable {s : Files} {mounts : Mounts} {f : FoundFs} {fullpath pathname src : Path}
  {memory : Bool} {workingDirectory : Option Path}

theorem normalised_of_head (hpath : dfsNormalizePath workingDirectory true pathname = some fullpath)
    (hhead : fullpath.head? = some '/') : Normalised fullpath := by
  obtain ⟨src, -, hsrc⟩ := bind_eq_some_iff.mp hpath
  rw [if_pos rfl] at hsrc
  obtain ⟨out, hloop, hstrip⟩ := map_eq_some_iff.mp hsrc
  have hstart : ∃ (fuel : ℕ) (rest : Path) (place : Place), rest.length < fuel ∧
      rest.head? ≠ some '/' ∧ place.st = [] ∧
      normalizeLoop fuel rest place.written.reverse = some out := by
    by_cases hslash : src.head? = some '/'
    · obtain ⟨tail, rfl⟩ : ∃ tail, src = '/' :: tail := ⟨_, (List.cons_head?_tail hslash).symm⟩
      rw [List.length_cons, normalizeLoop_slash] at hloop
      exact ⟨_, skipSlashes tail, ⟨true, []⟩,
        Nat.lt_succ_of_le (List.dropWhile_sublist _).length_le, skipSlashes_head tail, rfl, hloop⟩
    · exact ⟨_, src, ⟨false, []⟩, Nat.lt_succ_self _, hslash, rfl, hloop⟩
  obtain ⟨fuel, rest, place, hlen, hrest, hst, hloop⟩ := hstart
  have hproper : ∀ name ∈ place.st, ProperName name := by
    rw [hst]
    exact nofun
  obtain ⟨hnone, hsome⟩ := normalizeLoop_walk fuel rest place hlen hrest hproper
  cases hwalk : walk (rest.splitOn '/') place with
  | none =>
    rw [hnone hwalk] at hloop
    cases hloop
  | some up =>
    obtain ⟨hup, out', hloop', hends⟩ := hsome up hwalk
    rw [hloop, some.injEq] at hloop'
    rw [← hloop'] at hends
    cases hrooted : up.rooted with
    | true =>
      have hplace : up = ⟨true, up.st⟩ := by rw [← hrooted]
      rw [hplace] at hends
      exact ⟨up.st, hup, hstrip ▸ stripSlash_ends hup hends⟩
    | false =>
      by_cases hout : out = []
      · rw [← hstrip, hout] at hhead
        cases hhead
      · rw [← hstrip] at hhead
        exact absurd hhead (unrooted_head hends hrooted hup hout)

/-- The file system found names the file by the rest of its path. -/
theorem findFs_spec (hs : mounts.Consistent)
    (hpath : dfsNormalizePath workingDirectory true pathname = some fullpath)
    (hf : findFs mounts.table fullpath = some f) :
    Normalised fullpath ∧ RightName f.path fullpath := by
  obtain ⟨fs, hlookup, hentry⟩ := bind_eq_some_iff.mp hf
  obtain ⟨iter, hget, hiter⟩ := bind_eq_some_iff.mp hentry
  obtain ⟨fspath, hfspath, hops⟩ := bind_eq_some_iff.mp hiter
  obtain ⟨ops, hops, hresult⟩ := map_eq_some_iff.mp hops
  have hused : iter.ops ≠ none := by
    rw [hops]
    exact some_ne_none ops
  obtain ⟨fspath', hfspath', st, _, hst⟩ := hs.normalised fs iter hget hused
  have hhead : fullpath.head? = some '/' := by
    obtain ⟨src, hsrc⟩ := SlashPath.render_head st
    rcases lookupFrom_starts mounts.table 0 0 none hlookup with
      hnone | ⟨k, e, starts, hk, he, hestarts, tail, htail⟩
    · cases hnone
    · rw [Nat.zero_add] at hk
      rw [← hk, hget, some.injEq] at he
      rw [← he, hfspath', some.injEq] at hestarts
      rw [← htail, ← hestarts, hst, hsrc]
      rfl
  have hnormal := normalised_of_head hpath hhead
  obtain ⟨prefixlen, hlongest⟩ := filesystemLookup_spec hs hnormal
  obtain ⟨mountpath, ⟨iter', hget', -, hpath'⟩, hcontains, -, -⟩ := hlongest.found fs hlookup
  rw [hget, some.injEq] at hget'
  rw [← hget', hfspath, some.injEq] at hpath'
  rw [← hresult]
  exact ⟨hnormal, rightName_of_contains (hpath' ▸ hcontains)⟩

theorem open_iff_bound (s : Files) (pathname : Path) :
    (∃ fullpath ∈ dfsNormalizePath s.workingDirectory true pathname, s.Open fullpath) ↔
      ∃ index < s.cfg.firstFd + s.cfg.fdMax, bindFile s pathname (s.fds index) =
        some (s.fds index) := by
  constructor
  · rintro ⟨fullpath, hpath, f, hf, index, hindex, hfs, hname⟩
    have hsame : { s.fds index with fs := some f.fs, path := some (f.fileName s.flags fullpath) } =
        s.fds index := by
      rw [← hfs, ← hname]
    refine ⟨index, hindex, ?_⟩
    unfold bindFile
    rw [hpath, bind_some, hf, map_some, hsame]
  · rintro ⟨index, hindex, hbound⟩
    obtain ⟨fullpath, hpath, hrest⟩ := bind_eq_some_iff.mp hbound
    obtain ⟨f, hf, hsame⟩ := map_eq_some_iff.mp hrest
    refine ⟨fullpath, hpath, f, hf, index, hindex, ?_, ?_⟩
    · exact (congrArg DfsFd.fs hsame).symm
    · exact (congrArg DfsFd.path hsame).symm

theorem comparedName_eq {flags : FsFlags} (h : RightName f.path fullpath)
    (hsame : f.SameName flags fullpath) : f.comparedName fullpath = f.fileName flags fullpath := by
  unfold FoundFs.comparedName FoundFs.fileName
  by_cases hroot : f.path = ['/']
  · rw [if_pos hroot, h.root hroot]
    split <;> rfl
  · obtain ⟨hflag, hne⟩ := hsame.resolve_left hroot
    have happend := h.append hne hroot
    rw [if_neg hroot, hflag, if_neg Bool.false_ne_true]
    nth_rewrite 1 [← happend]
    exact List.drop_left

theorem OpenIn.mono {t : Table} {n m fs : ℕ} {name : Path} (hle : n ≤ m)
    (h : OpenIn t n fs name) : OpenIn t m fs name := by
  obtain ⟨index, hindex, hbound⟩ := h
  exact ⟨index, hindex.trans_le hle, hbound⟩

theorem dfsNormalizePath_noMemory (workingDirectory : Option Path) (pathname : Path) :
    dfsNormalizePath workingDirectory false pathname = none := by
  unfold dfsNormalizePath
  cases absolute workingDirectory pathname <;> rfl

theorem fdIsOpen_eq_zero (hpath : dfsNormalizePath s.workingDirectory true pathname = some fullpath)
    (hf : findFs s.mounts.table fullpath = some f) :
    fdIsOpen s true pathname = 0 ↔ OpenIn s.fds s.cfg.fdMax f.fs (f.comparedName fullpath) := by
  have hany : ((List.range s.cfg.fdMax).any fun index =>
      (s.fds index).fs == some f.fs && (s.fds index).path == some (f.comparedName fullpath)) =
        true ↔ OpenIn s.fds s.cfg.fdMax f.fs (f.comparedName fullpath) := by
    simp [OpenIn]
  unfold fdIsOpen
  rw [hpath]
  simp only [hf]
  rw [← hany]
  split <;> simp [*]

theorem fdIsOpen_noMemory (s : Files) (pathname : Path) : fdIsOpen s false pathname = -1 := by
  unfold fdIsOpen
  rw [dfsNormalizePath_noMemory]

theorem fdIsOpen_missing (hmissing : ∀ fullpath ∈ dfsNormalizePath s.workingDirectory true pathname,
      findFs s.mounts.table fullpath = none) : fdIsOpen s memory pathname = -1 := by
  cases memory with
  | false => exact fdIsOpen_noMemory s pathname
  | true =>
    unfold fdIsOpen
    cases hpath : dfsNormalizePath s.workingDirectory true pathname with
    | none => rfl
    | some fullpath => simp only [hmissing fullpath hpath]

theorem isOpen_iff_fitsFile (hright : RightName f.path fullpath)
    (hpath : dfsNormalizePath s.workingDirectory true pathname = some fullpath)
    (hf : findFs s.mounts.table fullpath = some f) :
    (fdIsOpen s memory pathname = 0 ↔ s.Open fullpath) ↔ s.FitsFile memory fullpath f := by
  have hopen : s.Open fullpath ↔
      OpenIn s.fds (s.cfg.firstFd + s.cfg.fdMax) f.fs (f.fileName s.flags fullpath) := by
    unfold Files.Open
    rw [hf]
    simp
  have hmono : OpenIn s.fds s.cfg.fdMax f.fs (f.fileName s.flags fullpath) →
      OpenIn s.fds (s.cfg.firstFd + s.cfg.fdMax) f.fs (f.fileName s.flags fullpath) :=
    OpenIn.mono (Nat.le_add_left _ _)
  rw [hopen]
  unfold Files.FitsFile
  cases memory with
  | false =>
    rw [fdIsOpen_noMemory, if_neg Bool.false_ne_true]
    have hne : ¬ (-1 : ℤ) = 0 := by decide
    exact ⟨fun h hin => hne (h.mpr hin), fun h => iff_of_false hne h⟩
  | true =>
    rw [fdIsOpen_eq_zero hpath hf, if_pos rfl]
    by_cases hsame : f.SameName s.flags fullpath
    · rw [if_pos hsame, comparedName_eq hright hsame]
      exact ⟨fun h => h.mpr, fun h => ⟨hmono, h⟩⟩
    · rw [if_neg hsame]
      exact iff_comm

theorem findFs_unique {table : List Mounted} {path other : Path} {g : FoundFs}
    (hf : findFs table path = some f) (hg : findFs table other = some g) (hsame : f.fs = g.fs) :
    f = g := by
  obtain ⟨fs, -, hentry⟩ := bind_eq_some_iff.mp hf
  obtain ⟨fs', -, hentry'⟩ := bind_eq_some_iff.mp hg
  have hfs : ∀ {k : ℕ} {h : FoundFs}, (table[k]?.bind fun iter => iter.path.bind fun path =>
      iter.ops.map fun ops => (⟨k, path, ops⟩ : FoundFs)) = some h → h.fs = k := by
    intro k h hk
    obtain ⟨iter, -, hiter⟩ := bind_eq_some_iff.mp hk
    obtain ⟨path, -, hops⟩ := bind_eq_some_iff.mp hiter
    obtain ⟨ops, -, rfl⟩ := map_eq_some_iff.mp hops
    rfl
  obtain rfl : fs = fs' := by rw [← hfs hentry, ← hfs hentry', hsame]
  exact some.inj (hentry.symm.trans hentry')

/-- With other names a file that is open is missed, as long as the slots hold what
`dfs_file_open` leaves in them and the path does not repeat its mount point. -/
theorem Files.Opened.fitsFile_iff (hopened : s.Opened) (hmounts : s.mounts.Consistent)
    (hf : findFs s.mounts.table fullpath = some f) (hother : ¬ f.SameName s.flags fullpath)
    (hrepeat : ¬ f.path <+: f.comparedName fullpath) :
    s.FitsFile true fullpath f ↔ ¬ s.Open fullpath := by
  have hnone : ¬ OpenIn s.fds s.cfg.fdMax f.fs (f.comparedName fullpath) := by
    rintro ⟨index, hindex, hfs, hname⟩
    obtain ⟨pathname', hbound⟩ := hopened index (hindex.trans_le (Nat.le_add_left _ _)) f.fs hfs
    obtain ⟨other, hpath', hrest⟩ := bind_eq_some_iff.mp hbound
    obtain ⟨g, hg, hslot⟩ := map_eq_some_iff.mp hrest
    obtain rfl : g = f :=
      findFs_unique hg hf (some.inj ((congrArg DfsFd.fs hslot).trans hfs))
    have hsame : g.fileName s.flags other = g.comparedName fullpath :=
      some.inj ((congrArg DfsFd.path hslot).trans hname)
    have hright := (findFs_spec hmounts hpath' hg).2
    have hroot : g.path ≠ ['/'] := fun heq => hother (.inl heq)
    unfold FoundFs.fileName at hsame
    cases hflag : s.flags.fullpath g.ops with
    | true =>
      rw [if_pos hflag] at hsame
      apply hrepeat
      rw [← hsame]
      by_cases hself : other = g.path
      · rw [hself]
      · exact ⟨_, hright.append hself hroot⟩
    | false =>
      have hmount : fullpath = g.path := not_not.mp fun hne => hother (.inr ⟨hflag, hne⟩)
      have hslash := hright.slash
      rw [hflag, if_neg Bool.false_ne_true] at hsame
      rw [hsame, FoundFs.comparedName, if_neg hroot, hmount, List.drop_length] at hslash
      cases hslash
  unfold Files.FitsFile
  rw [if_pos rfl, if_neg hother, iff_false_right hnone, Files.Open, hf]
  simp

theorem fdIsOpen_fullpath (hnormal : Normalised fullpath)
    (hpath : dfsNormalizePath s.workingDirectory true pathname = some fullpath) :
    fdIsOpen s memory fullpath = fdIsOpen s memory pathname := by
  cases memory with
  | false => rw [fdIsOpen_noMemory, fdIsOpen_noMemory]
  | true =>
    obtain ⟨st, hst, hrender⟩ := hnormal
    obtain ⟨src, hsrc⟩ := SlashPath.render_head st
    have hhead : fullpath.head? = some '/' := by
      rw [hrender, hsrc]
      rfl
    have hself : resolve fullpath = some st := by
      rw [hrender]
      exact SlashPath.resolve_render hst
    have hagain := normalize_spelling hhead hself s.workingDirectory
    rw [← hrender] at hagain
    unfold fdIsOpen
    rw [hagain, hpath]

end Names

/-- A path is checked as it should be exactly when it fits. -/
theorem checksOpen_iff (s : Files) (memory : Bool) (pathname : Path)
    (hmounts : s.mounts.Consistent) : s.ChecksOpen memory pathname ↔ s.Fits memory pathname := by
  cases hpath : dfsNormalizePath s.workingDirectory true pathname with
  | none =>
    have hmissing : fdIsOpen s memory pathname = -1 :=
      fdIsOpen_missing fun fullpath h => by simp [hpath] at h
    refine iff_of_true ⟨?_, ?_⟩ fun fullpath h => by simp [hpath] at h
    · rw [hmissing, hpath]
      exact iff_of_false (by decide) (by simp)
    · intro fs name _ fullpath h
      simp [hpath] at h
  | some fullpath =>
    have honly : ∀ other ∈ dfsNormalizePath s.workingDirectory true pathname, other = fullpath := by
      intro other hother
      rw [hpath] at hother
      exact (some.inj hother).symm
    cases hf : findFs s.mounts.table fullpath with
    | none =>
      have hmissing : fdIsOpen s memory pathname = -1 :=
        fdIsOpen_missing fun other h => honly other h ▸ hf
      have hclosed : ¬ s.Open fullpath := by
        rintro ⟨f, hmem, -⟩
        rw [hf] at hmem
        cases hmem
      refine iff_of_true ⟨?_, ?_⟩ fun other h f hmem => ?_
      · rw [hmissing]
        refine iff_of_false (by decide) ?_
        rintro ⟨other, hother, hopen⟩
        exact hclosed (honly other hother ▸ hopen)
      · intro fs name _ other hother
        rw [honly other hother]
        exact hclosed
      · rw [honly other h, hf] at hmem
        cases hmem
    | some f =>
      obtain ⟨hnormal, hright⟩ := findFs_spec hmounts hpath hf
      have hfile := @isOpen_iff_fitsFile s f fullpath pathname memory hright hpath hf
      have hexists : (∃ other ∈ dfsNormalizePath s.workingDirectory true pathname,
          s.Open other) ↔ s.Open fullpath :=
        ⟨fun ⟨other, hother, hopen⟩ => honly other hother ▸ hopen,
          fun hopen => ⟨fullpath, hpath, hopen⟩⟩
      have hfits : s.Fits memory pathname ↔ s.FitsFile memory fullpath f := by
        constructor
        · intro h
          exact h fullpath hpath f hf
        · intro h other hother g hg
          rw [honly other hother, hf] at hg
          rw [honly other hother, ← some.inj hg]
          exact h
      rw [hfits, ← hfile]
      constructor
      · intro h
        rw [← hexists]
        exact h.isOpen
      · intro h
        refine ⟨h.trans hexists.symm, fun fs name hcalled other hother hopen => ?_⟩
        rw [honly other hother] at hopen
        have hzero : fdIsOpen s memory fullpath = 0 :=
          (@fdIsOpen_fullpath s fullpath pathname memory hnormal hpath).trans (h.mpr hopen)
        unfold dfsFileUnlink at hcalled
        rw [hpath] at hcalled
        simp only [hf, if_pos hzero] at hcalled
        exact UnlinkResult.noConfusion hcalled

def boundFd (fs : ℕ) (path : Path) : DfsFd :=
  { DfsFd.cleared with magic := DFS_FD_MAGIC, refCount := 1, fs := some fs, path := some path }

def stdioFiles : Files where
  cfg := { firstFd := 3, fdMax := 4 }
  flags := { fullpath := fun _ => false, unlink := fun _ => true }
  workingDirectory := some ['/']
  mounts := rootMounts
  fds := fun index => if index = 6 then boundFd 0 ['/', 'a'] else .cleared

def mountedFiles (fullpath : Bool) (path : Path) : Files where
  cfg := { firstFd := 0, fdMax := 4 }
  flags := { fullpath := fun _ => fullpath, unlink := fun _ => true }
  workingDirectory := some ['/']
  mounts :=
    { table :=
        [{ path := some ['/'], ops := some ⟨['r', 'a', 'm'], true, true, true⟩, dev := none },
          { path := some ['/', 'm'], ops := some ⟨['n', 'f', 's'], true, true, true⟩, dev := none }]
      devices := fun _ => closedDevice }
  fds := fun index => if index = 0 then boundFd 1 path else .cleared

theorem checksOpen_stdio :
    stdioFiles.ChecksOpen true ['/', 'a'] ↔ stdioFiles.Fits true ['/', 'a'] :=
  checksOpen_iff stdioFiles true ['/', 'a'] rootMounts_consistent

/-- Open files are unlinked: in the last slots with `DFS_USING_STDIO`, below a mount point of a
file system with full paths, and a mount point itself. -/
theorem unlink_of_open : (¬ ∀ (s : Files) (memory : Bool) (pathname : Path), s.mounts.Consistent →
        s.ChecksOpen memory pathname) ∧
      ((mountedFiles true ['/', 'm', '/', 'f']).Open ['/', 'm', '/', 'f'] ∧
        dfsFileUnlink (mountedFiles true ['/', 'm', '/', 'f']) true true ['/', 'm', '/', 'f'] =
          .called 1 ['/', 'm', '/', 'f']) ∧ (mountedFiles false ['/']).Open ['/', 'm'] ∧
        dfsFileUnlink (mountedFiles false ['/']) true true ['/', 'm'] = .called 1 ['/'] := by
  refine ⟨fun h => ?_, ⟨⟨_, rfl, 0, by decide, rfl, rfl⟩, by decide⟩,
    ⟨_, rfl, 0, by decide, rfl, rfl⟩, by decide⟩
  have hopen : stdioFiles.Open ['/', 'a'] := ⟨_, rfl, 6, by decide, rfl, rfl⟩
  have hzero := (h stdioFiles true ['/', 'a'] rootMounts_consistent).isOpen.mpr
    ⟨['/', 'a'], by decide, hopen⟩
  cases hzero

end RtThread.Dfs
