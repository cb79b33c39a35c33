import RtThread.SlashPaths
import Mathlib.Data.List.TakeWhile

/-!
# Looking up a path in a romfs

`dfs_romfs_lookup` goes down the tables of a ROM file system, component by
component, and compares a name over the length of the component only.  The
pointer that it returns is the list of the positions in the tables on the way.
-/

namespace RtThread.Romfs

open List Option

abbrev Path := List Char

abbrev Name := List Char

/-- `struct romfs_dirent`: a file with its size, or a directory with the table at its `data`.
The `data` of an empty directory may be null, which ends the search as well. -/
inductive Dirent
  | file (name : Name) (size : ℕ)
  | dir (name : Name) (entries : List Dirent)

def Dirent.name : Dirent → Name
  | .file name _ => name
  | .dir name _ => name

def Dirent.size : Dirent → ℕ
  | .file _ size => size
  | .dir _ entries => entries.length

abbrev Found := List ℕ × ℕ

def skipSlashes (path : Path) : Path := path.dropWhile (· = '/')

def component (subpath : Path) : Name := subpath.takeWhile (· ≠ '/')

def afterComponent (subpath : Path) : Path := subpath.dropWhile (· ≠ '/')

/-- `rt_strncmp(name, subpath, subpath_end - subpath) == 0` -/
def sameStart (component name : Name) : Bool := component.isPrefixOf name

def lookupLoop : ℕ → List Dirent → Path → Option Found
  | 0, _, _ => none
  | fuel + 1, entries, subpath =>
    -- search in folder
    (entries.findIdx? fun entry => sameStart (component subpath) entry.name).bind fun index =>
      entries[index]?.bind fun entry =>
        let rest := skipSlashes (afterComponent subpath)
        if rest = [] then some ([index], entry.size)
        else
          match entry with
          | .dir _ entries =>
            (lookupLoop fuel entries rest).map fun found => (index :: found.1, found.2)
          -- not the end of path
          | .file _ _ => none

def dfsRomfsLookup (root : List Dirent) (path : Path) : Option Found :=
  if path = ['/'] then some ([], root.length)
  else lookupLoop (path.length + 1) root (skipSlashes path)

def names (path : Path) : List Name := (path.splitOn '/').filter (· ≠ [])

def followBy (goes : Name → Name → Bool) : Dirent → List Name → Option Found
  | entry, [] => some ([], entry.size)
  | .file _ _, _ :: _ => none
  | .dir _ entries, name :: rest =>
    (entries.findIdx? fun entry => goes name entry.name).bind fun index =>
      entries[index]?.bind fun entry =>
        (followBy goes entry rest).map fun found => (index :: found.1, found.2)

def sameName (name other : Name) : Bool := name == other

def follow (root : List Dirent) (path : Path) : Option Found :=
  followBy sameName (.dir ['/'] root) (names path)

def Leads (goes : Name → Name → Bool) : Dirent → List Name → Prop
  | _, [] => True
  | .file _ _, _ :: _ => False
  | .dir _ entries, name :: rest =>
    ∃ entry, entries.find? (fun entry => goes name entry.name) = some entry ∧ Leads goes entry rest

/-- On the way down the first entry whose name starts with the next name is the entry of that
name.  Where it is another one neither the path nor the way over that entry leads anywhere. -/
def FirstIsSame : Dirent → List Name → Prop
  | _, [] => True
  | .file _ _, _ :: _ => True
  | .dir name entries, next :: rest =>
    match entries.find? fun entry => sameStart next entry.name with
    | none => True
    | some entry =>
      if entry.name = next then FirstIsSame entry rest
      else ¬ Leads sameName (.dir name entries) (next :: rest) ∧ ¬ Leads sameStart entry rest

section Names

variable {path rest : Path} {entries : List Dirent} {entry : Dirent} {next : Name}
  {goes : Name → Name → Bool} {index : ℕ}

theorem names_skipSlashes (path : Path) : names (skipSlashes path) = names path := by
  induction path with
  | nil => rfl
  | cons c path ih =>
    by_cases hc : c = '/'
    · have hsplit : (c :: path).splitOn '/' = [] :: path.splitOn '/' := by
        rw [hc]
        exact @SlashPath.splitOn_name_slash [] path not_mem_nil
      have hdrop : skipSlashes (c :: path) = skipSlashes path := by simp [skipSlashes, hc]
      rw [hdrop, ih]
      unfold names
      rw [hsplit]
      simp
    · have hdrop : skipSlashes (c :: path) = c :: path := by simp [skipSlashes, hc]
      rw [hdrop]

theorem skipSlashes_head (path : Path) : (skipSlashes path).head? ≠ some '/' := by
  intro hslash
  have hhead := head?_dropWhile_not (· = '/') path
  unfold skipSlashes at hslash
  rw [hslash] at hhead
  simp at hhead

theorem noSlash_component (path : Path) : '/' ∉ component path := by
  intro hslash
  have hne := mem_takeWhile_imp hslash
  simp at hne

theorem component_ne_nil (hpath : path ≠ []) (hhead : path.head? ≠ some '/') :
    component path ≠ [] := by
  obtain ⟨c, rest, hcons⟩ := exists_cons_of_ne_nil hpath
  have hc : c ≠ '/' := by
    intro hslash
    rw [hcons, hslash] at hhead
    exact hhead rfl
  unfold component
  rw [hcons]
  simp [hc]

theorem names_component (hpath : path ≠ []) (hhead : path.head? ≠ some '/') :
    names path = component path :: names (skipSlashes (afterComponent path)) := by
  have hne := component_ne_nil hpath hhead
  have hsplit : component path ++ afterComponent path = path := takeWhile_append_dropWhile
  have hslash := noSlash_component path
  cases hafter : afterComponent path with
  | nil =>
    rw [hafter, append_nil] at hsplit
    unfold names
    nth_rewrite 1 [← hsplit]
    rw [SlashPath.splitOn_name hslash]
    simp [hne, skipSlashes]
  | cons c rest =>
    have hc : c = '/' := by
      have hfirst := head?_dropWhile_not (· ≠ '/') path
      unfold afterComponent at hafter
      rw [hafter] at hfirst
      simpa using hfirst
    have hdrop : skipSlashes (c :: rest) = skipSlashes rest := by simp [skipSlashes, hc]
    rw [hafter, hc] at hsplit
    rw [hdrop, names_skipSlashes]
    unfold names
    nth_rewrite 1 [← hsplit]
    rw [SlashPath.splitOn_name_slash hslash]
    simp [hne]

theorem names_eq_nil_iff (path : Path) : names path = [] ↔ skipSlashes path = [] := by
  constructor
  · intro hnames
    by_contra hpath
    rw [← names_skipSlashes, names_component hpath (skipSlashes_head path)] at hnames
    exact cons_ne_nil _ _ hnames
  · intro hpath
    rw [← names_skipSlashes, hpath]
    rfl

theorem lookupLoop_eq (fuel : ℕ) :
    ∀ (entries : List Dirent) (name : Name) (path : Path), path.length < fuel → path ≠ [] →
      path.head? ≠ some '/' →
      lookupLoop fuel entries path = followBy sameStart (.dir name entries) (names path) := by
  induction fuel with
  | zero =>
    intro entries name path hlen
    cases hlen
  | succ fuel ih =>
    intro entries name path hlen hpath hhead
    rw [names_component hpath hhead, followBy, lookupLoop]
    have hrest : skipSlashes (afterComponent path) ≠ [] →
        (skipSlashes (afterComponent path)).length < fuel := by
      intro _
      have hsplit : component path ++ afterComponent path = path := takeWhile_append_dropWhile
      have hlength := congrArg List.length hsplit
      have hpos := length_pos_iff.mpr (component_ne_nil hpath hhead)
      have hle : (skipSlashes (afterComponent path)).length ≤ (afterComponent path).length :=
        (dropWhile_sublist _).length_le
      rw [length_append] at hlength
      omega
    congr 1
    funext index
    congr 1
    funext entry
    by_cases hlast : skipSlashes (afterComponent path) = []
    · simp only [hlast]
      rfl
    · simp only [if_neg hlast]
      cases entry with
      | dir other inner =>
        exact congrArg (Option.map fun found => (index :: found.1, found.2))
          (ih inner other _ (hrest hlast) hlast (skipSlashes_head _))
      | file other size =>
        rw [names_component hlast (skipSlashes_head _)]
        rfl

theorem followBy_eq_none_iff (goes : Name → Name → Bool) (names : List Name) :
    ∀ entry, followBy goes entry names = none ↔ ¬ Leads goes entry names := by
  induction names with
  | nil =>
    intro entry
    rw [followBy, Leads]
    exact iff_of_false (some_ne_none _) (fun h => h trivial)
  | cons next rest ih =>
    intro entry
    cases entry with
    | file name size =>
      rw [followBy, Leads]
      exact iff_of_true rfl not_false
    | dir name entries =>
      have hfind := @find?_eq_bind_findIdx?_getElem? _ entries
        fun entry => goes next entry.name
      rw [followBy, Leads]
      rw [hfind]
      cases entries.findIdx? fun entry => goes next entry.name with
      | none => simp
      | some index =>
        simp only [bind_some]
        cases hget : entries[index]? with
        | none => simp
        | some entry =>
          rw [bind_some, map_eq_none_iff, ih entry]
          simp

theorem findIdx?_same (hindex : entries.findIdx? (fun entry => sameStart next entry.name) =
    some index) (hget : entries[index]? = some entry) (hname : entry.name = next) :
    entries.findIdx? (fun entry => sameName next entry.name) = some index := by
  rw [findIdx?_eq_some_iff_getElem] at hindex ⊢
  obtain ⟨hlt, _, hbefore⟩ := hindex
  have hentry : entries[index] = entry := by
    rw [getElem?_eq_getElem hlt] at hget
    exact some.inj hget
  refine ⟨hlt, by rw [hentry, hname]; simp [sameName], fun j hj => ?_⟩
  have hstart := hbefore j hj
  unfold sameStart at hstart
  unfold sameName
  simp only [beq_iff_eq]
  intro hsame
  rw [← hsame] at hstart
  simp at hstart

theorem findIdx?_none_of_start
    (hnone : entries.findIdx? (fun entry => sameStart next entry.name) = none) :
    entries.findIdx? (fun entry => sameName next entry.name) = none := by
  have hstarts : ∀ entry ∈ entries, sameName next entry.name = true →
      sameStart next entry.name = true := by
    intro entry _ hsame
    unfold sameName at hsame
    rw [beq_iff_eq] at hsame
    rw [← hsame]
    simp [sameStart]
  exact findIdx?_eq_none_of_findIdx?_eq_none hstarts hnone

theorem followBy_dir_some {name : Name} {rest : List Name} {found : Found}
    (h : followBy goes (.dir name entries) (next :: rest) = some found) :
    ∃ index entry tail, found.1 = index :: tail ∧ entries[index]? = some entry ∧
      goes next entry.name = true := by
  rw [followBy] at h
  obtain ⟨index, hindex, hrest⟩ := bind_eq_some_iff.mp h
  obtain ⟨entry, hget, hmap⟩ := bind_eq_some_iff.mp hrest
  obtain ⟨inner, _, hfound⟩ := map_eq_some_iff.mp hmap
  obtain ⟨hlt, hgoes, _⟩ := findIdx?_eq_some_iff_getElem.mp hindex
  have hentry : entries[index] = entry := by
    rw [getElem?_eq_getElem hlt] at hget
    exact some.inj hget
  exact ⟨index, entry, inner.1, by rw [← hfound], hget, hentry ▸ hgoes⟩

/-- Comparing by prefix finds what comparing names finds exactly when the first match is equal. -/
theorem followBy_eq_iff (names : List Name) :
    ∀ entry, followBy sameStart entry names = followBy sameName entry names ↔
      FirstIsSame entry names := by
  induction names with
  | nil =>
    intro entry
    rw [followBy, followBy, FirstIsSame]
    exact iff_of_true rfl trivial
  | cons next rest ih =>
    intro entry
    cases entry with
    | file name size =>
      rw [followBy, followBy, FirstIsSame]
      exact iff_of_true rfl trivial
    | dir name entries =>
      have hexact := followBy_eq_none_iff sameName (next :: rest) (.dir name entries)
      have hfind := @find?_eq_bind_findIdx?_getElem? _ entries
        fun entry => sameStart next entry.name
      have hplace : ∀ found, followBy sameName (.dir name entries) (next :: rest) = some found →
          ∃ index entry tail, found.1 = index :: tail ∧ entries[index]? = some entry ∧
            sameName next entry.name = true := fun found => followBy_dir_some
      have hunfold : followBy sameName (.dir name entries) (next :: rest) =
          (entries.findIdx? fun entry => sameName next entry.name).bind fun index =>
            entries[index]?.bind fun entry =>
              (followBy sameName entry rest).map fun found => (index :: found.1, found.2) :=
        rfl
      rw [FirstIsSame, hfind, ← hexact]
      rw [followBy]
      cases hindex : entries.findIdx? fun entry => sameStart next entry.name with
      | none =>
        rw [hunfold, findIdx?_none_of_start hindex]
        exact iff_of_true rfl trivial
      | some index =>
        have hlt := (findIdx?_eq_some_iff_getElem.mp hindex).1
        have hget : entries[index]? = some entries[index] := getElem?_eq_getElem hlt
        simp only [bind_some, hget]
        by_cases hname : entries[index].name = next
        · have hinj : Function.Injective fun found : Found => (index :: found.1, found.2) := by
            intro found other heq
            rw [Prod.mk.injEq, cons.injEq] at heq
            exact Prod.ext heq.1.2 heq.2
          rw [hunfold, findIdx?_same hindex hget hname]
          simp only [bind_some, hget, if_pos hname]
          rw [← ih]
          exact (map_injective hinj).eq_iff
        · simp only [if_neg hname, ← followBy_eq_none_iff]
          constructor
          · intro hsame
            cases hexactWay : followBy sameName (.dir name entries) (next :: rest) with
            | none =>
              rw [hexactWay, map_eq_none_iff] at hsame
              exact ⟨rfl, hsame⟩
            | some found =>
              -- the two ways would have to begin with the same entry
              obtain ⟨other, entry, tail, hfound, hother, hgoes⟩ := hplace found hexactWay
              rw [hexactWay] at hsame
              obtain ⟨inner, _, heq⟩ := map_eq_some_iff.mp hsame
              have hfirst : index = other := by
                rw [← heq] at hfound
                exact (cons.inj hfound).1
              rw [← hfirst, hget, some.injEq] at hother
              unfold sameName at hgoes
              rw [beq_iff_eq, ← hother] at hgoes
              exact absurd hgoes.symm hname
          · intro h
            rw [h.1, h.2, map_none]

end Names

/-- A path is looked up as it should be when it is the root's, or has a name and goes down over
first entries that have the names. -/
theorem lookup_right_iff (root : List Dirent) (path : Path) :
    dfsRomfsLookup root path = follow root path ↔
      path = ['/'] ∨ names path ≠ [] ∧ FirstIsSame (.dir ['/'] root) (names path) := by
  unfold dfsRomfsLookup follow
  by_cases hroot : path = ['/']
  · rw [if_pos hroot]
    have hnames : names path = [] := by
      rw [names_eq_nil_iff, hroot]
      rfl
    rw [hnames]
    exact iff_of_true rfl (.inl hroot)
  · rw [if_neg hroot]
    by_cases hnames : names path = []
    · -- an empty component starts every name
      have hskip := (names_eq_nil_iff path).mp hnames
      rw [hnames, hskip]
      refine iff_of_false (fun heq => ?_) (fun h => ?_)
      · rw [lookupLoop] at heq
        obtain ⟨index, _, hrest⟩ := bind_eq_some_iff.mp heq
        obtain ⟨entry, _, hfound⟩ := bind_eq_some_iff.mp hrest
        have hempty : skipSlashes (afterComponent []) = [] := rfl
        simp only [hempty] at hfound
        have hfirst := congrArg Prod.fst (some.inj hfound)
        cases hfirst
      · rcases h with hslash | ⟨hne, _⟩
        · exact hroot hslash
        · exact hne rfl
    · have hskip : skipSlashes path ≠ [] := fun h => hnames ((names_eq_nil_iff path).mpr h)
      have hlen : (skipSlashes path).length < path.length + 1 :=
        Nat.lt_succ_of_le (dropWhile_sublist _).length_le
      rw [lookupLoop_eq _ root ['/'] _ hlen hskip (skipSlashes_head path), names_skipSlashes,
        followBy_eq_iff]
      constructor
      · intro h
        exact .inr ⟨hnames, h⟩
      · intro h
        exact (h.resolve_left hroot).2

/-- A name which only begins like the one looked up, and the name of no character. -/
theorem lookup_of_start : (¬ ∀ (root : List Dirent) (path : Path), (root.map Dirent.name).Nodup →
        (∀ entry ∈ root, entry.name ≠ []) → dfsRomfsLookup root path = follow root path) ∧
      dfsRomfsLookup [.file ['a', 'b'] 3] ['/', 'a'] = some ([0], 3) ∧
      dfsRomfsLookup [.file ['a', 'b'] 3] ['/', '/'] = some ([0], 3) := by
  refine ⟨fun h => ?_, by decide, by decide⟩
  have heq := h [.file ['a', 'b'] 3, .file ['a'] 5] ['/', 'a'] (by decide) (by simp [Dirent.name])
  have hcode : dfsRomfsLookup [.file ['a', 'b'] 3, .file ['a'] 5] ['/', 'a'] = some ([0], 3) := by
    decide
  have hexact : follow [.file ['a', 'b'] 3, .file ['a'] 5] ['/', 'a'] = some ([1], 5) := by
    decide
  rw [hcode, hexact] at heq
  cases heq

end RtThread.Romfs
