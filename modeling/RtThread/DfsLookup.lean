import RtThread.DfsMountRuns

/-!
# From a path to the file system and its name there

`dfs_filesystem_lookup` compares the mount points with the path character by
character, and `dfs_subdir` cuts the mount point off.
-/

namespace RtThread.Dfs

open List Option SlashPath

open SlashPath (ProperName Contains directory render resolve Normalised)

def lookupFrom (path : Path) : ℕ → ℕ → Option ℕ → List Mounted → Option ℕ
  | _, _, fs, [] => fs
  | idx, prefixlen, fs, iter :: table =>
    match iter.path, iter.ops with
    | some fspath, some _ =>
      if fspath.length < prefixlen ∨ ¬ fspath <+: path then
        lookupFrom path (idx + 1) prefixlen fs table
      -- check next path separator
      else if 1 < fspath.length ∧ fspath.length < path.length ∧ path[fspath.length]? ≠ some '/' then
        lookupFrom path (idx + 1) prefixlen fs table
      else lookupFrom path (idx + 1) fspath.length (some idx) table
    | _, _ => lookupFrom path (idx + 1) prefixlen fs table

def filesystemLookup (table : List Mounted) (path : Path) : Option ℕ :=
  lookupFrom path 0 0 none table

def dfsSubdir (directory filename : Path) : Option Path :=
  if directory.length = filename.length then none
  else
    let dir := directory.length
    if filename[dir]? ≠ some '/' ∧ dir ≠ 0 then some (filename.drop (dir - 1))
    else some (filename.drop dir)

/-- The name that a file system without `DFS_FS_FLAG_FULLPATH` gets in `dfs_file_open`. -/
def mountName (mountpath fullpath : Path) : Path := (dfsSubdir mountpath fullpath).getD ['/']

def MountedAt (table : List Mounted) (i : ℕ) (fspath : Path) : Prop :=
  ∃ iter, table[i]? = some iter ∧ iter.ops ≠ none ∧ iter.path = some fspath

section Lookup

variable {table done : List Mounted} {path fspath : Path} {st : List Path} {i idx prefixlen : ℕ}
  {fs : Option ℕ} {iter : Mounted}

theorem passes_iff_contains (hfs : Normalised fspath) (hpath : Normalised path) :
    (fspath <+: path ∧ ¬ (1 < fspath.length ∧ fspath.length < path.length ∧
      path[fspath.length]? ≠ some '/')) ↔ Contains fspath path := by
  obtain ⟨outer, houter, rfl⟩ := hfs
  obtain ⟨st, hst, rfl⟩ := hpath
  have hcontains : Contains (render outer) (render st) ↔ outer <:+ st := by
    constructor
    · rintro ⟨outer', st', hst', hmount, hpath, hsuffix⟩
      have houter' : ∀ name ∈ outer', ProperName name :=
        fun name hmem => hst' name (hsuffix.mem hmem)
      rwa [render_inj houter houter' hmount, render_inj hst hst' hpath]
    · intro hsuffix
      exact ⟨outer, st, hst, rfl, rfl, hsuffix⟩
  rw [hcontains, contains_iff houter hst]
  refine and_congr_right fun hstarts => ?_
  have hlong := one_lt_render_length houter
  constructor
  · intro hpass
    by_cases hroot : outer = []
    · exact .inl hroot
    · right
      by_cases hlen : (render outer).length < (render st).length
      · right
        by_contra hslash
        exact hpass ⟨hlong.mpr hroot, hlen, hslash⟩
      · left
        exact hstarts.eq_of_length (Nat.le_antisymm hstarts.length_le (not_lt.mp hlen))
  · rintro (hroot | hsame | hslash) ⟨hone, hlen, hother⟩
    · exact hlong.mp hone hroot
    · rw [hsame] at hlen
      exact absurd hlen (Nat.lt_irrefl _)
    · exact hother hslash

/-- `fs` is the mounted file system with the longest path that contains `path`. -/
structure Longest (done : List Mounted) (path : Path) (prefixlen : ℕ) (fs : Option ℕ) : Prop where
  missing : fs = none → prefixlen = 0 ∧ ∀ j fspath, MountedAt done j fspath → ¬ Contains fspath path
  found : ∀ i ∈ fs, ∃ fspath, MountedAt done i fspath ∧ Contains fspath path ∧
    prefixlen = fspath.length ∧
      ∀ j other, MountedAt done j other → Contains other path → other.length ≤ fspath.length

theorem mountedAt_append {j : ℕ} {other : Path} : MountedAt (done ++ [iter]) j other ↔
      MountedAt done j other ∨ j = done.length ∧ iter.ops ≠ none ∧ iter.path = some other := by
  have hget : ∀ e, (done ++ [iter])[j]? = some e ↔
      done[j]? = some e ∨ j = done.length ∧ e = iter := by
    intro e
    rw [getElem?_append]
    split
    · have hne : j ≠ done.length := by omega
      simp [hne]
    · have hout : done[j]? = none := getElem?_eq_none (by omega)
      have hone : [iter][j - done.length]? = some e ↔ j - done.length = 0 ∧ iter = e := by
        rw [getElem?_eq_some_iff]
        simp
      rw [hone, hout]
      have hj : j - done.length = 0 ↔ j = done.length := by omega
      rw [hj]
      simp [eq_comm]
  constructor
  · rintro ⟨e, he, hops, hpath⟩
    rcases (hget e).mp he with hold | ⟨hj, hlast⟩
    · exact .inl ⟨e, hold, hops, hpath⟩
    · rw [hlast] at hops hpath
      exact .inr ⟨hj, hops, hpath⟩
  · rintro (⟨e, he, hops, hpath⟩ | ⟨hj, hops, hpath⟩)
    · exact ⟨e, (hget e).mpr (.inl he), hops, hpath⟩
    · exact ⟨iter, (hget iter).mpr (.inr ⟨hj, rfl⟩), hops, hpath⟩

theorem Longest.skip (h : Longest done path prefixlen fs)
    (hskip : ∀ fspath, iter.ops ≠ none → iter.path = some fspath → Contains fspath path →
      fspath.length < prefixlen) : Longest (done ++ [iter]) path prefixlen fs := by
  constructor
  · intro hfs
    obtain ⟨hzero, hnone⟩ := h.missing hfs
    refine ⟨hzero, fun j fspath hj hcontains => ?_⟩
    rcases mountedAt_append.mp hj with hold | ⟨_, hops, hpath⟩
    · exact hnone j fspath hold hcontains
    · have hlt := hskip fspath hops hpath hcontains
      omega
  · intro i hi
    obtain ⟨fspath, hat, hcontains, hlen, hmax⟩ := h.found i hi
    refine ⟨fspath, mountedAt_append.mpr (.inl hat), hcontains, hlen, fun j other hj hother => ?_⟩
    rcases mountedAt_append.mp hj with hold | ⟨_, hops, hpath⟩
    · exact hmax j other hold hother
    · have hlt := hskip other hops hpath hother
      omega

theorem Longest.take (h : Longest done path prefixlen fs) (hops : iter.ops ≠ none)
    (hfs : iter.path = some fspath) (hcontains : Contains fspath path)
    (hlen : prefixlen ≤ fspath.length) :
    Longest (done ++ [iter]) path fspath.length (some done.length) := by
  constructor
  · intro hnone
    cases hnone
  · intro i hi
    have hi' : done.length = i := some.inj hi
    refine ⟨fspath, mountedAt_append.mpr (.inr ⟨hi'.symm, hops, hfs⟩), hcontains, rfl,
      fun j other hj hother => ?_⟩
    rcases mountedAt_append.mp hj with hold | ⟨_, _, hpath⟩
    · cases hcase : fs with
      | none => exact absurd hother ((h.missing hcase).2 j other hold)
      | some k =>
        obtain ⟨before, _, _, hbefore, hmax⟩ := h.found k hcase
        have hle := hmax j other hold hother
        omega
    · rw [hfs] at hpath
      exact (congrArg List.length (some.inj hpath)).ge

theorem lookupFrom_longest (hpath : Normalised path) (table : List Mounted) : ∀ done prefixlen fs,
      (∀ iter ∈ table, iter.ops ≠ none → ∃ fspath, iter.path = some fspath ∧ Normalised fspath) →
      Longest done path prefixlen fs → ∃ prefixlen', Longest (done ++ table) path prefixlen'
        (lookupFrom path done.length prefixlen fs table) := by
  induction table with
  | nil =>
    intro done prefixlen fs _ h
    rw [append_nil]
    exact ⟨prefixlen, h⟩
  | cons iter table ih =>
    intro done prefixlen fs hnormal h
    have hrest := fun e he => hnormal e (mem_cons_of_mem _ he)
    have happend : done ++ iter :: table = (done ++ [iter]) ++ table := by simp
    have hlength : (done ++ [iter]).length = done.length + 1 := by simp
    have hnext := fun prefixlen fs => ih (done ++ [iter]) prefixlen fs hrest
    rw [hlength] at hnext
    rw [happend, lookupFrom]
    split
    · rename_i fspath ops hiter hops
      have hused : iter.ops ≠ none := by simp [hops]
      obtain ⟨fspath', hfs', hfsNormal⟩ := hnormal iter mem_cons_self hused
      rw [hiter] at hfs'
      rw [← some.inj hfs'] at hfsNormal
      have hpass := passes_iff_contains hfsNormal hpath
      have honly : ∀ other, iter.path = some other → other = fspath := by
        intro other hother
        rw [hiter] at hother
        exact (some.inj hother).symm
      by_cases hfirst : fspath.length < prefixlen ∨ ¬ fspath <+: path
      · rw [if_pos hfirst]
        refine hnext prefixlen fs (h.skip fun other _ hother hcontains => ?_)
        rw [honly other hother] at hcontains ⊢
        exact hfirst.resolve_right (not_not.mpr (hpass.mpr hcontains).1)
      · rw [if_neg hfirst]
        rw [not_or, not_not] at hfirst
        by_cases hsecond : 1 < fspath.length ∧ fspath.length < path.length ∧
            path[fspath.length]? ≠ some '/'
        · rw [if_pos hsecond]
          refine hnext prefixlen fs (h.skip fun other _ hother hcontains => ?_)
          rw [honly other hother] at hcontains
          exact absurd hsecond (hpass.mpr hcontains).2
        · rw [if_neg hsecond]
          have hcontains := hpass.mp ⟨hfirst.2, hsecond⟩
          exact hnext _ _ (h.take hused hiter hcontains (not_lt.mp hfirst.1))
    · rename_i hunused
      refine hnext prefixlen fs (h.skip fun other hops hother _ => ?_)
      cases hcase : iter.ops with
      | none => contradiction
      | some ops => exact absurd hcase (hunused other ops hother)

/-- The lookup gives the longest mounted path which contains the name. -/
theorem filesystemLookup_spec {s : Mounts} (hs : s.Consistent) (hpath : Normalised path) :
    ∃ prefixlen, Longest s.table path prefixlen (filesystemLookup s.table path) := by
  have hnormal : ∀ iter ∈ s.table, iter.ops ≠ none →
      ∃ fspath, iter.path = some fspath ∧ Normalised fspath := by
    intro iter hmem hops
    obtain ⟨i, hi⟩ := mem_iff_getElem?.mp hmem
    exact hs.normalised i iter hi hops
  have hinit : Longest [] path 0 none := by
    refine ⟨fun _ => ⟨rfl, fun j fspath hj => ?_⟩, fun i hi => absurd hi.symm (some_ne_none i)⟩
    obtain ⟨iter, hget, _⟩ := hj
    simp at hget
  obtain ⟨prefixlen, hlongest⟩ := lookupFrom_longest hpath s.table [] 0 none hnormal hinit
  rw [nil_append] at hlongest
  exact ⟨prefixlen, hlongest⟩

theorem lookupFrom_starts (table : List Mounted) :
    ∀ idx prefixlen fs, lookupFrom path idx prefixlen fs table = some i →
      fs = some i ∨ ∃ k iter fspath, i = idx + k ∧ table[k]? = some iter ∧
        iter.path = some fspath ∧ fspath <+: path := by
  induction table with
  | nil =>
    intro idx prefixlen fs hlookup
    exact .inl hlookup
  | cons iter table ih =>
    intro idx prefixlen fs hlookup
    have hlater : ∀ prefixlen fs, lookupFrom path (idx + 1) prefixlen fs table = some i →
        fs = some i ∨ ∃ k e fspath, i = idx + k ∧ (iter :: table)[k]? = some e ∧
          e.path = some fspath ∧ fspath <+: path := by
      intro prefixlen fs hrest
      rcases ih (idx + 1) prefixlen fs hrest with hfs | ⟨k, e, fspath, hi, hget, hpath, hstarts⟩
      · exact .inl hfs
      · exact .inr ⟨k + 1, e, fspath, by omega, hget, hpath, hstarts⟩
    rw [lookupFrom] at hlookup
    split at hlookup
    · rename_i fspath ops hiter hops
      split at hlookup
      · exact hlater prefixlen fs hlookup
      · rename_i hfirst
        rw [not_or, not_not] at hfirst
        split at hlookup
        · exact hlater prefixlen fs hlookup
        · rcases hlater fspath.length (some idx) hlookup with hfs | hlater
          · exact .inr ⟨0, iter, fspath, (some.inj hfs).symm, rfl, hiter, hfirst.2⟩
          · exact .inr hlater
    · exact hlater prefixlen fs hlookup

end Lookup

/-- The name within the file system, and the path from which it comes back. -/
structure RightName (mountpath path : Path) : Prop where
  slash : (mountName mountpath path).head? = some '/'
  self : path = mountpath → mountName mountpath path = ['/']
  root : mountpath = ['/'] → mountName mountpath path = path
  append : path ≠ mountpath → mountpath ≠ ['/'] → mountpath ++ mountName mountpath path = path
  spells : ∀ workingDirectory,
    dfsNormalizePath workingDirectory true (mountpath ++ mountName mountpath path) = some path

section Names

variable {mountpath path rest : Path}

theorem mountName_self (path : Path) : mountName path path = ['/'] := by
  unfold mountName dfsSubdir
  rw [if_pos rfl]
  rfl

theorem mountName_root (hrest : rest ≠ []) (hslash : rest.head? ≠ some '/') :
    mountName ['/'] ('/' :: rest) = '/' :: rest := by
  have hlen : ['/'].length ≠ ('/' :: rest).length := by simpa using hrest
  have hback : ('/' :: rest)[['/'].length]? ≠ some '/' ∧ ['/'].length ≠ 0 := by
    rw [head?_eq_getElem?] at hslash
    exact ⟨by simpa using hslash, by simp⟩
  unfold mountName dfsSubdir
  rw [if_neg hlen, if_pos hback]
  rfl

theorem mountName_append (mountpath rest : Path) :
    mountName mountpath (mountpath ++ '/' :: rest) = '/' :: rest := by
  have hlen : mountpath.length ≠ (mountpath ++ '/' :: rest).length := by simp
  have hslash : ¬ ((mountpath ++ '/' :: rest)[mountpath.length]? ≠ some '/' ∧
      mountpath.length ≠ 0) := by
    simp
  unfold mountName dfsSubdir
  rw [if_neg hlen, if_neg hslash]
  simp

theorem normalize_spelling {src : Path} {st : List Path} (hsrc : src.head? = some '/')
    (hst : resolve src = some st) (workingDirectory : Option Path) :
    dfsNormalizePath workingDirectory true src = some (render st) :=
  (dfsNormalizePath_of_resolve (if_pos hsrc) hst).1

theorem rightName_of_contains (h : Contains mountpath path) : RightName mountpath path := by
  obtain ⟨outer, st, hst, rfl, rfl, hsuffix⟩ := h
  have houter : ∀ name ∈ outer, ProperName name := fun name hmem => hst name (hsuffix.mem hmem)
  have hrootOuter : render outer = ['/'] ↔ outer = [] :=
    ⟨fun h => render_inj houter (by simp) h, fun h => h ▸ rfl⟩
  obtain ⟨tail, htail⟩ := render_head st
  by_cases hself : outer = st
  · -- the mount point itself
    have hname := mountName_self (render st)
    rw [hself]
    refine ⟨by rw [hname]; rfl, fun _ => hname, fun hroot => hname.trans hroot.symm,
      fun hne => absurd rfl hne, fun workingDirectory => ?_⟩
    rw [hname]
    by_cases hroot : st = []
    · rw [hroot]
      exact normalize_spelling rfl (resolve_slash []) workingDirectory
    · rw [render_append_slash hroot]
      refine normalize_spelling ?_ (resolve_directory_self hst) workingDirectory
      rw [directory_eq_below]
      rfl
  · have hother : render st ≠ render outer :=
      fun h => hself (render_inj houter hst h.symm)
    by_cases hroot : outer = []
    · -- the root: the name is the path
      have hst' : st ≠ [] := fun h => hself (hroot.trans h.symm)
      have hrest : tail ≠ [] := by
        intro hnil
        have hlong := (one_lt_render_length hst).mpr hst'
        rw [htail, hnil] at hlong
        exact Nat.lt_irrefl 1 hlong
      have hslash : tail.head? ≠ some '/' := by
        intro hhead
        exact render_second_ne hst htail hhead
      have hname : mountName (render outer) (render st) = render st := by
        rw [hrootOuter.mpr hroot, htail]
        exact mountName_root hrest hslash
      refine ⟨by rw [hname, htail]; rfl, fun h => absurd h hother, fun _ => hname,
        fun _ h => absurd (hrootOuter.mpr hroot) h, fun workingDirectory => ?_⟩
      rw [hname, hrootOuter.mpr hroot]
      have hspell : resolve (['/'] ++ render st) = some st := by
        rw [htail, singleton_append, resolve_slash, ← htail]
        exact resolve_render hst
      exact normalize_spelling rfl hspell workingDirectory
    · -- a directory: a slash follows its spelling
      obtain ⟨hstarts, hcases⟩ := (contains_iff houter hst).mp hsuffix
      obtain ⟨after, hafter⟩ := hstarts
      have hslash : (render st)[(render outer).length]? = some '/' :=
        (hcases.resolve_left hroot).resolve_left (Ne.symm hother)
      cases after with
      | nil =>
        rw [append_nil] at hafter
        exact absurd hafter.symm hother
      | cons c after =>
        rw [← hafter] at hslash
        have hc : c = '/' := by simpa using hslash
        rw [hc] at hafter
        have hname : mountName (render outer) (render st) = '/' :: after := by
          rw [← hafter]
          exact mountName_append _ _
        refine ⟨by rw [hname]; rfl, fun h => absurd h hother,
          fun h => absurd (hrootOuter.mp h) hroot, fun _ _ => by rw [hname, hafter],
          fun workingDirectory => ?_⟩
        rw [hname, hafter]
        refine normalize_spelling ?_ (resolve_render hst) workingDirectory
        rw [htail]
        rfl

end Names

/-- The lookup finds the longest mount point that contains a path, and the name there is what
is left of the path. -/
theorem lookup_longest (s : Mounts) (path : Path) (hs : s.Consistent) (hpath : Normalised path) :
    (filesystemLookup s.table path = none →
      ∀ j fspath, MountedAt s.table j fspath → ¬ Contains fspath path) ∧
    ∀ i, filesystemLookup s.table path = some i →
      ∃ mountpath, MountedAt s.table i mountpath ∧ Contains mountpath path ∧
        (∀ j other, MountedAt s.table j other → Contains other path → j ≠ i →
          other.length < mountpath.length) ∧
        RightName mountpath path := by
  obtain ⟨prefixlen, hlongest⟩ := filesystemLookup_spec hs hpath
  constructor
  · intro hnone
    exact (hlongest.missing hnone).2
  · intro i hi
    obtain ⟨mountpath, hat, hcontains, _, hmax⟩ := hlongest.found i hi
    refine ⟨mountpath, hat, hcontains, fun j other hj hother hne => ?_,
      rightName_of_contains hcontains⟩
    refine lt_of_le_of_ne (hmax j other hj hother) fun hlen => hne ?_
    -- two mount points of one length that contain the path are the same
    obtain ⟨e, he, hops, hepath⟩ := hj
    obtain ⟨f, hf, hfops, hfpath⟩ := hat
    have hsame : other = mountpath := Contains.eq_of_length hother hcontains hlen
    exact hs.distinct j i e f he hf hops hfops (by rw [hepath, hfpath, hsame])

def rootMounts : Mounts where
  table := [{ path := some ['/'], ops := some ⟨['r', 'a', 'm'], true, true, true⟩, dev := none }]
  devices := fun _ => closedDevice

theorem rootMounts_consistent : rootMounts.Consistent := by
  have hone : ∀ (i : ℕ) (e : Mounted), rootMounts.table[i]? = some e →
      i = 0 ∧ e.path = some ['/'] := by
    intro i e hget
    cases i with
    | zero =>
      rw [← some.inj hget]
      exact ⟨rfl, rfl⟩
    | succ i => cases hget
  constructor
  · intro i e hget _
    exact ⟨['/'], (hone i e hget).2, [], by simp, rfl⟩
  · intro i j e f he hf _ _ _
    rw [(hone i e he).1, (hone j f hf).1]

theorem normalised_a : Normalised ['/', 'a'] := by
  have hproper : ProperName ['a'] := ⟨by simp, by simp, by simp, by simp⟩
  exact ⟨[['a']], fun name hmem => mem_singleton.mp hmem ▸ hproper, rfl⟩

theorem lookup_longest_root : (filesystemLookup rootMounts.table ['/', 'a'] = none →
      ∀ j fspath, MountedAt rootMounts.table j fspath → ¬ Contains fspath ['/', 'a']) ∧
    ∀ i, filesystemLookup rootMounts.table ['/', 'a'] = some i →
      ∃ mountpath, MountedAt rootMounts.table i mountpath ∧ Contains mountpath ['/', 'a'] ∧
        (∀ j other, MountedAt rootMounts.table j other → Contains other ['/', 'a'] → j ≠ i →
          other.length < mountpath.length) ∧ RightName mountpath ['/', 'a'] :=
  lookup_longest rootMounts ['/', 'a'] rootMounts_consistent normalised_a

/-- At the mount `/` the name is the path itself, not what is left of it. -/
theorem mountName_not_literal : ¬ ∀ (s : Mounts) (path : Path), s.Consistent → Normalised path →
      ∀ i mountpath, filesystemLookup s.table path = some i → MountedAt s.table i mountpath →
        mountpath ++ mountName mountpath path = path := by
  intro h
  have hat : MountedAt rootMounts.table 0 ['/'] := ⟨_, rfl, some_ne_none _, rfl⟩
  have heq := h rootMounts ['/', 'a'] rootMounts_consistent normalised_a 0 ['/'] rfl hat
  have hlen := congrArg List.length heq
  cases hlen

end RtThread.Dfs
