import RtThread.DfsNormalize

/-!
# The working directory

`chdir` joins its argument to `working_directory`, opens the result and copies
it back.  The answers of the heap and of the file system are part of the calls.
-/

namespace RtThread.Dfs

open List Option

open SlashPath (ProperName Normalised render lowest settle)

structure CString where
  chars : Path
  noNul : NUL ∉ chars

/-- `strncpy(dest, src, n)` over the `n` characters of `dest` -/
def strncpy (n : ℕ) (src : Path) : Buffer := (src ++ List.replicate n NUL).take n

structure Workdir where
  buffer : Buffer
  entered : Path

structure ChdirCall where
  path : Option CString
  /-- There is memory for the path in `chdir`. -/
  memory : Bool
  /-- The answers to `opendir`: a descriptor, memory for its path, and the file system's
  directory. -/
  descriptor : Bool
  openMemory : Bool
  opens : Bool

def Workdir.init (pathMax : ℕ) : Workdir where
  buffer := strncpy pathMax ['/']
  entered := ['/']

def Workdir.string (s : Workdir) : Option Path :=
  if NUL ∈ s.buffer then some (cString s.buffer) else none

/-- `dfs_normalize_path(NULL, filename)`; the working directory is read for a relative name
only. -/
def Workdir.normalize (s : Workdir) (memory : Bool) (filename : Path) : Option (Option Path) :=
  if filename.head? = some '/' then normalizePath memory [] filename
  else s.string.bind fun directory => normalizePath memory directory filename

def Workdir.opendir (s : Workdir) (call : ChdirCall) (name : Path) : Option (Option Path) :=
  if call.descriptor then
    (s.normalize call.openMemory name).map fun path => path.filter fun _ => call.opens
  else some none

def chdir (pathMax : ℕ) (call : ChdirCall) (s : Workdir) : Option (Workdir × ℤ) :=
  match call.path with
  | none => s.string.map fun _ => (s, 0)
  | some path =>
    if pathMax < path.chars.length then some (s, -1)
    else
      (s.normalize call.memory path.chars).bind fun
        | none => some (s, -1)
        | some fullpath =>
          (s.opendir call fullpath).map fun
            | none => (s, -1)
            | some entered => ({ buffer := strncpy pathMax fullpath, entered := entered }, 0)

def Workdir.run (pathMax : ℕ) (calls : List ChdirCall) (s : Workdir) : Option Workdir :=
  calls.foldlM (fun s call => (chdir pathMax call s).map Prod.fst) s

/-- The buffer has the directory last entered, as a canonical string. -/
structure Workdir.Right (pathMax : ℕ) (s : Workdir) : Prop where
  length : s.buffer.length = pathMax
  terminated : NUL ∈ s.buffer
  short : (cString s.buffer).length < pathMax
  canonical : Normalised (cString s.buffer)
  entered : cString s.buffer = s.entered

def Workdir.names (s : Workdir) (path : CString) : List Path :=
  (joined (cString s.buffer) path.chars).splitOn '/'

/-- `chdir` returns; it enters the directory named or changes nothing. -/
structure ChdirCall.Right (pathMax : ℕ) (s : Workdir) (call : ChdirCall) : Prop where
  returns : chdir pathMax call s ≠ none
  failed : ∀ s' result, chdir pathMax call s = some (s', result) → result ≠ 0 → s' = s
  entered : ∀ s' path, chdir pathMax call s = some (s', 0) → call.path = some path →
    s'.entered = render (settle (s.names path))

/-- The path does not lead one directory above the root, and if it is entered its canonical
spelling leaves room for the terminator. -/
def ChdirCall.Fits (pathMax : ℕ) (s : Workdir) (call : ChdirCall) : Prop :=
  ∀ path ∈ call.path, path.chars.length ≤ pathMax → call.memory = true →
    lowest (s.names path) ≠ -1 ∧
      (call.descriptor = true → call.openMemory = true → call.opens = true →
        0 ≤ lowest (s.names path) → (render (settle (s.names path))).length < pathMax)

def Workdir.RunFits (pathMax : ℕ) : Workdir → List ChdirCall → Prop
  | _, [] => True
  | s, call :: calls =>
    call.Fits pathMax s ∧
      ∀ s' result, chdir pathMax call s = some (s', result) → Workdir.RunFits pathMax s' calls

/-- The stored directory is the stack of the names entered. -/
structure Workdir.Inv (pathMax : ℕ) (s : Workdir) (st : List Path) : Prop where
  proper : ∀ name ∈ st, ProperName name
  noNul : NUL ∉ render st
  short : (render st).length < pathMax
  buffer : s.buffer = strncpy pathMax (render st)
  entered : s.entered = render st

section Invariant

variable {pathMax : ℕ} {s s' : Workdir} {st : List Path} {call : ChdirCall} {src : Path}

theorem strncpy_short (hshort : src.length < pathMax) :
    ∃ rest, strncpy pathMax src = src ++ NUL :: rest := by
  have hfill : (List.replicate pathMax NUL).take (pathMax - src.length) =
      NUL :: List.replicate (pathMax - src.length - 1) NUL := by
    rw [take_replicate, Nat.min_eq_left (Nat.sub_le _ _), ← replicate_succ]
    congr 1
    omega
  unfold strncpy
  rw [take_append, take_of_length_le hshort.le, hfill]
  exact ⟨_, rfl⟩

theorem Workdir.Inv.string (h : s.Inv pathMax st) :
    NUL ∈ s.buffer ∧ cString s.buffer = render st := by
  obtain ⟨rest, hrest⟩ := strncpy_short h.short
  rw [h.buffer, hrest]
  exact ⟨mem_append_right _ mem_cons_self, cString_append h.noNul rest⟩

theorem Workdir.Inv.right (h : s.Inv pathMax st) : s.Right pathMax := by
  obtain ⟨hnul, hstring⟩ := h.string
  refine ⟨?_, hnul, ?_, ?_, ?_⟩
  · have hlen := h.short
    rw [h.buffer, strncpy, length_take, length_append, length_replicate]
    omega
  · rw [hstring]
    exact h.short
  · rw [hstring]
    exact ⟨st, h.proper, rfl⟩
  · rw [hstring, h.entered]

theorem Workdir.inv_init (hmax : 1 < pathMax) : (Workdir.init pathMax).Inv pathMax [] :=
  ⟨nofun, by decide, hmax, rfl, rfl⟩

section

variable (h : s.Inv pathMax st)
include h

theorem Workdir.Inv.normalize (memory : Bool) (filename : Path) :
    s.normalize memory filename = normalizePath memory (render st) filename := by
  obtain ⟨hnul, hstring⟩ := h.string
  unfold Workdir.normalize
  by_cases hslash : filename.head? = some '/'
  · have hjoined : joined [] filename = joined (render st) filename := by
      unfold joined
      rw [if_pos hslash, if_pos hslash]
    rw [if_pos hslash, normalizePath, normalizePath, hjoined]
  · rw [if_neg hslash]
    unfold Workdir.string
    rw [if_pos hnul, hstring, bind_some]

theorem Workdir.Inv.normalize_cases (path : CString) (hlow : lowest (s.names path) ≠ -1) :
    lowest (s.names path) < 0 ∧ s.normalize true path.chars = some none ∨
      0 ≤ lowest (s.names path) ∧ ∃ st', (∀ name ∈ st', ProperName name) ∧ NUL ∉ render st' ∧
        st' = settle (s.names path) ∧ s.normalize true path.chars = some (some (render st')) := by
  obtain ⟨tail, htail⟩ : ∃ tail, joined (render st) path.chars = '/' :: tail := by
    unfold joined
    split
    · exact ⟨_, (cons_head?_tail ‹_›).symm⟩
    · obtain ⟨src, hsrc⟩ := SlashPath.render_head st
      rw [hsrc]
      exact ⟨_, rfl⟩
  have hnul : NUL ∉ joined (render st) path.chars := by
    unfold joined
    split
    · exact path.noNul
    · simp only [mem_append, mem_cons, not_or]
      exact ⟨h.noNul, nul_ne_slash, path.noNul⟩
  have hnames : s.names path = ('/' :: tail).splitOn '/' := by
    rw [Workdir.names, h.string.2, htail]
  have hrun : s.normalize true path.chars = rewrite ('/' :: tail) := by
    rw [h.normalize, normalizePath, if_pos rfl, htail]
  obtain ⟨hrooted, _, htwo⟩ := rewrite_cases (htail ▸ hnul)
  rw [hnames] at hlow ⊢
  rw [hrun]
  by_cases hzero : 0 ≤ lowest (('/' :: tail).splitOn '/')
  · right
    obtain ⟨st', hproper, hsettle, hresult⟩ := hrooted hzero
    exact ⟨hzero, st', hproper, nul_notin_rewrite (htail ▸ hnul) hresult, hsettle, hresult⟩
  · left
    exact ⟨not_le.mp hzero, htwo (by omega)⟩

theorem Workdir.Inv.opendir {st' : List Path}
    (hst' : ∀ name ∈ st', ProperName name) (hnul : NUL ∉ render st') : s.opendir call (render st') =
      some (if call.descriptor = true ∧ call.openMemory = true ∧ call.opens = true then
        some (render st') else none) := by
  unfold Workdir.opendir
  rw [h.normalize]
  cases call.descriptor with
  | false => rfl
  | true =>
    cases call.openMemory with
    | false => rfl
    | true =>
      rw [normalizePath_render hst' hnul]
      cases call.opens <;> rfl

theorem chdir_cases (hfits : call.Fits pathMax s) :
    (∃ result, chdir pathMax call s = some (s, result) ∧ (result = 0 → call.path = none)) ∨
      ∃ path s', call.path = some path ∧ chdir pathMax call s = some (s', 0) ∧
        s'.Inv pathMax (settle (s.names path)) := by
  obtain ⟨hnul, hstring⟩ := h.string
  unfold chdir
  cases hpath : call.path with
  | none =>
    left
    have hread : s.string = some (cString s.buffer) := if_pos hnul
    exact ⟨0, by rw [hread]; rfl, fun _ => rfl⟩
  | some path =>
    have hnegative : (-1 : ℤ) = 0 → (some path : Option CString) = none :=
      nofun
    by_cases hlong : pathMax < path.chars.length
    · left
      exact ⟨-1, if_pos hlong, hnegative⟩
    · simp only [if_neg hlong]
      cases hmemory : call.memory with
      | false =>
        left
        rw [h.normalize]
        exact ⟨-1, rfl, hnegative⟩
      | true =>
        obtain ⟨hlow, hroom⟩ := hfits path hpath (not_lt.mp hlong) hmemory
        rcases h.normalize_cases path hlow with ⟨_, hnull⟩ | ⟨hzero, st', hproper, hst', hsettle, hfull⟩
        · left
          rw [hnull]
          exact ⟨-1, rfl, hnegative⟩
        · have hopen := @Workdir.Inv.opendir pathMax s st call h st' hproper hst'
          simp only [hfull, bind_some, hopen]
          by_cases hall : call.descriptor = true ∧ call.openMemory = true ∧ call.opens = true
          · right
            simp only [if_pos hall]
            refine ⟨path, _, rfl, rfl, ?_⟩
            have hlen := hroom hall.1 hall.2.1 hall.2.2 hzero
            rw [← hsettle] at hlen ⊢
            exact ⟨hproper, hst', hlen, rfl, rfl⟩
          · left
            simp only [if_neg hall]
            exact ⟨-1, rfl, hnegative⟩

theorem chdir_right (hfits : call.Fits pathMax s) :
    call.Right pathMax s := by
  rcases chdir_cases h hfits with ⟨result, hresult, hzero⟩ | ⟨path, next, hpath, hresult, hinv⟩
  · refine ⟨by rw [hresult]; exact some_ne_none _, fun s' other hother _ => ?_,
      fun s' path hother hpath => ?_⟩
    · rw [hresult] at hother
      exact (congrArg Prod.fst (some.inj hother)).symm
    · rw [hresult] at hother
      have hnone := hzero (congrArg Prod.snd (some.inj hother))
      rw [hnone] at hpath
      cases hpath
  · refine ⟨by rw [hresult]; exact some_ne_none _, fun s' other hother hne => ?_,
      fun s' other hother hother' => ?_⟩
    · rw [hresult] at hother
      exact absurd (congrArg Prod.snd (some.inj hother)).symm hne
    · rw [hresult] at hother
      rw [hpath] at hother'
      have hsame : next = s' := congrArg Prod.fst (some.inj hother)
      rw [← hsame, ← some.inj hother']
      exact hinv.entered

theorem chdir_full {path : CString} (hpath : call.path = some path)
    (hlength : path.chars.length ≤ pathMax) (hmemory : call.memory = true)
    (hall : call.descriptor = true ∧ call.openMemory = true ∧ call.opens = true)
    (hzero : 0 ≤ lowest (s.names path))
    (hfull : pathMax ≤ (render (settle (s.names path))).length) :
    ∃ s', chdir pathMax call s = some (s', 0) ∧ NUL ∉ s'.buffer := by
  rcases h.normalize_cases path (by omega) with ⟨hlow, _⟩ | ⟨_, st', hproper, hst', hsettle, hnormal⟩
  · exact absurd hzero (not_le.mpr hlow)
  · have hopen := @Workdir.Inv.opendir pathMax s st call h st' hproper hst'
    have hbuffer : NUL ∉ strncpy pathMax (render st') := by
      rw [← hsettle] at hfull
      unfold strncpy
      rw [take_append_of_le_length hfull]
      exact fun hmem => hst' (mem_of_mem_take hmem)
    unfold chdir
    simp only [hpath, if_neg (not_lt.mpr hlength), hmemory, hnormal, bind_some, hopen,
      if_pos hall]
    exact ⟨_, rfl, hbuffer⟩

end

theorem Workdir.run_inv (calls : List ChdirCall) :
    ∀ (s : Workdir) (st : List Path), s.Inv pathMax st → s.RunFits pathMax calls →
      ∃ s' st', s.run pathMax calls = some s' ∧ s'.Inv pathMax st' := by
  induction calls with
  | nil =>
    intro s st h _
    exact ⟨s, st, rfl, h⟩
  | cons call calls ih =>
    intro s st h hfits
    have hnext : ∃ s' result st', chdir pathMax call s = some (s', result) ∧
        s'.Inv pathMax st' := by
      rcases chdir_cases h hfits.1 with ⟨result, hresult, _⟩ | ⟨path, s', _, hresult, hinv⟩
      · exact ⟨s, result, st, hresult, h⟩
      · exact ⟨s', 0, _, hresult, hinv⟩
    obtain ⟨s', result, st', hresult, hinv⟩ := hnext
    obtain ⟨last, stLast, hrun, hlast⟩ := ih s' st' hinv (hfits.2 s' result hresult)
    refine ⟨last, stLast, ?_, hlast⟩
    unfold Workdir.run at hrun ⊢
    rw [foldlM_cons, hresult]
    exact hrun

end Invariant

/-- In a run of calls that fit, the working directory is the canonical path of the directory last
entered, and the next call that fits keeps it or enters the canonical path of its argument. -/
theorem workdir_of_runFits (pathMax : ℕ) (hmax : 1 < pathMax) (calls : List ChdirCall)
    (hfits : (Workdir.init pathMax).RunFits pathMax calls) :
    ∃ s, (Workdir.init pathMax).run pathMax calls = some s ∧ s.Right pathMax ∧
      ∀ call : ChdirCall, call.Fits pathMax s → call.Right pathMax s := by
  obtain ⟨s, st, hrun, hinv⟩ :=
    Workdir.run_inv calls (Workdir.init pathMax) [] (Workdir.inv_init hmax) hfits
  exact ⟨s, hrun, hinv.right, fun call hcall => chdir_right hinv hcall⟩

def chdirTo (chars : Path) (hnul : NUL ∉ chars) : ChdirCall where
  path := some ⟨chars, hnul⟩
  memory := true
  descriptor := true
  openMemory := true
  opens := true

theorem workdir_of_inner :
    ∃ s, (Workdir.init 256).run 256 [chdirTo ['a', '/', '.'] (by decide)] = some s ∧ s.Right 256 ∧
      ∀ call : ChdirCall, call.Fits 256 s → call.Right 256 s := by
  refine workdir_of_runFits 256 (by decide) _ ⟨fun path hpath _ _ => ?_, fun _ _ _ => trivial⟩
  rw [← some.inj hpath]
  exact ⟨by decide, fun _ _ _ _ => by decide⟩

def letters : CString where
  chars := List.replicate 255 'a'
  noNul := fun hmem => absurd (eq_of_mem_replicate hmem) (by decide)

theorem letters_names : lowest ((Workdir.init 256).names letters) = 0 ∧
      settle ((Workdir.init 256).names letters) = [letters.chars] := by
  have hslash : '/' ∉ letters.chars :=
    fun hmem => absurd (eq_of_mem_replicate hmem) (by decide)
  have hnames : (Workdir.init 256).names letters = ('/' :: '/' :: letters.chars).splitOn '/' := by
    have hstring := (@Workdir.inv_init 256 (by decide)).string.2
    rw [Workdir.names, hstring]
    rfl
  rw [hnames, lowest_absolute, lowest_absolute, settle_absolute, settle_absolute,
    SlashPath.splitOn_name hslash]
  exact ⟨rfl, rfl⟩

/-- A name of 255 characters does not fit, and above the root the slash is lost. -/
theorem not_right_of_long :
    (¬ ∀ calls : List ChdirCall, (∀ call ∈ calls, ∀ path ∈ call.path, path.chars.length ≤ 256) →
        ∃ s, (Workdir.init 256).run 256 calls = some s ∧ s.Right 256) ∧
      ((Workdir.init 256).run 256 [chdirTo ['/', '.', '.', '/', 'a'] (by decide)]).map
        (fun s => cString s.buffer) = some ['a'] := by
  have hletters : letters.chars.length = 255 := length_replicate
  constructor
  · intro h
    have hlength : ∀ call ∈ [chdirTo letters.chars letters.noNul], ∀ path ∈ call.path,
        path.chars.length ≤ 256 := by
      intro call hcall path hpath
      rw [mem_singleton.mp hcall] at hpath
      rw [← some.inj hpath]
      exact hletters.trans_le (by decide)
    obtain ⟨s, hrun, hright⟩ := h [chdirTo letters.chars letters.noNul] hlength
    obtain ⟨hlow, hsettle⟩ := letters_names
    have hrender : (render (settle ((Workdir.init 256).names letters))).length = 256 := by
      rw [hsettle, render, length_append, hletters]
      rfl
    obtain ⟨s', hchdir, hnul⟩ := @chdir_full 256 (Workdir.init 256) []
      (chdirTo letters.chars letters.noNul) (Workdir.inv_init (by decide)) letters rfl
      (hletters.trans_le (by decide)) rfl ⟨rfl, rfl, rfl⟩ hlow.ge hrender.ge
    have hrun' : (Workdir.init 256).run 256 [chdirTo letters.chars letters.noNul] = some s' := by
      unfold Workdir.run
      rw [foldlM_cons, hchdir]
      rfl
    rw [hrun', some.injEq] at hrun
    exact hnul (hrun ▸ hright.terminated)
  · decide

end RtThread.Dfs
