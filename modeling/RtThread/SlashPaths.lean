import Mathlib.Data.List.Basic
import Mathlib.Tactic

/-!
# Absolute paths

The names of a path between its slashes are read from left to right over a
stack of directories, the innermost first.  `..` leaves the innermost
directory, and there is nothing above the root.
-/

namespace RtThread.SlashPath

open List Option

abbrev Path := List Char

structure ProperName (name : Path) : Prop where
  ne_nil : name ≠ []
  ne_dot : name ≠ ['.']
  ne_dotdot : name ≠ ['.', '.']
  noSlash : '/' ∉ name

def pushName (st : List Path) (name : Path) : Option (List Path) :=
  if name = [] ∨ name = ['.'] then some st
  else if name = ['.', '.'] then
    match st with
    | [] => none
    | _ :: st => some st
  else some (name :: st)

def resolveNames (names : List Path) (st : List Path) : Option (List Path) :=
  names.foldlM pushName st

def resolve : Path → Option (List Path)
  | '/' :: src => resolveNames (src.splitOn '/') []
  | _ => none

def directory : List Path → Path
  | [] => ['/']
  | name :: st => directory st ++ name ++ ['/']

def render : List Path → Path
  | [] => ['/']
  | name :: st => directory st ++ name

def Normalised (path : Path) : Prop :=
  ∃ st, (∀ name ∈ st, ProperName name) ∧ path = render st

def settleName (st : List Path) (name : Path) : List Path :=
  if name = [] ∨ name = ['.'] then st
  else if name = ['.', '.'] then st.tail
  else name :: st

def settle (names : List Path) : List Path := names.foldl settleName []

def height (name : Path) : ℤ :=
  if name = [] ∨ name = ['.'] then 0 else if name = ['.', '.'] then -1 else 1

def lowest : List Path → ℤ
  | [] => 0
  | name :: names => min 0 (height name + lowest names)

section Names

variable {names st st' : List Path} {name src rest : Path}

theorem resolveNames_cons :
    resolveNames (name :: names) st = (pushName st name).bind (resolveNames names) :=
  foldlM_cons

theorem pushName_nil : pushName st [] = some st := if_pos (.inl rfl)

theorem pushName_proper (hname : ProperName name) : pushName st name = some (name :: st) := by
  have hskip : ¬ (name = [] ∨ name = ['.']) := not_or.mpr ⟨hname.ne_nil, hname.ne_dot⟩
  unfold pushName
  rw [if_neg hskip, if_neg hname.ne_dotdot]

theorem resolveNames_skip : resolveNames ((src.dropWhile (· = '/')).splitOn '/') st =
      resolveNames (src.splitOn '/') st := by
  induction src with
  | nil => rfl
  | cons c src ih =>
    by_cases hc : c = '/'
    · have hsplit : (c :: src).splitOn '/' = [] :: src.splitOn '/' := by
        rw [splitOn_eq_splitOnP, splitOnP_cons_eq_if_modifyHead]
        simp [hc, splitOn_eq_splitOnP]
      have hdrop : (c :: src).dropWhile (· = '/') = src.dropWhile (· = '/') := by
        simp [hc]
      rw [hdrop, ih, hsplit, resolveNames_cons, pushName_nil]
      rfl
    · have hdrop : (c :: src).dropWhile (· = '/') = c :: src := by
        simp [hc]
      rw [hdrop]

theorem ne_slash_of_mem (hname : '/' ∉ name) : ∀ c ∈ name, (c == '/') = false := by
  intro c hc
  have hne : c ≠ '/' := fun hslash => hname (hslash ▸ hc)
  simpa using hne

theorem splitOn_name (hname : '/' ∉ name) : name.splitOn '/' = [name] := by
  rw [splitOn_eq_splitOnP]
  exact splitOnP_eq_singleton (ne_slash_of_mem hname)

theorem splitOn_name_slash (hname : '/' ∉ name) :
    (name ++ '/' :: rest).splitOn '/' = name :: rest.splitOn '/' := by
  exact splitOnP_append_cons_of_forall_mem (ne_slash_of_mem hname) '/' rfl rest

theorem lowest_nonpos (names : List Path) : lowest names ≤ 0 := by
  cases names with
  | nil => exact le_refl 0
  | cons name names => exact min_le_left _ _

theorem foldl_settleName (names : List Path) :
    ∀ st, resolveNames names st = some st' → names.foldl settleName st = st' := by
  induction names with
  | nil =>
    intro st hresolve
    exact some.inj hresolve
  | cons name names ih =>
    intro st hresolve
    rw [resolveNames_cons] at hresolve
    obtain ⟨next, hpush, hrest⟩ := bind_eq_some_iff.mp hresolve
    have hstep : settleName st name = next := by
      unfold pushName at hpush
      unfold settleName
      split at hpush
      · rw [if_pos ‹_›]
        exact some.inj hpush
      · rw [if_neg ‹_›]
        split at hpush
        · rw [if_pos ‹_›]
          cases st with
          | nil => cases hpush
          | cons top st => exact some.inj hpush
        · rw [if_neg ‹_›]
          exact some.inj hpush
    rw [foldl_cons, hstep]
    exact ih next hrest

end Names

def below : List Path → Path
  | [] => []
  | name :: st => below st ++ name ++ ['/']

/-- The path begins with the components of the mount path. -/
def Contains (mount path : Path) : Prop :=
  ∃ outer st, (∀ name ∈ st, ProperName name) ∧ mount = render outer ∧ path = render st ∧
    outer <:+ st

section Spelling

variable {outer st st' : List Path} {name src : Path}

theorem directory_eq_below (st : List Path) : directory st = '/' :: below st := by
  induction st with
  | nil => rfl
  | cons name st ih => rw [directory, below, ih, cons_append, cons_append]

theorem below_append (inner outer : List Path) :
    below (inner ++ outer) = below outer ++ below inner := by
  induction inner with
  | nil => simp [below]
  | cons name inner ih => simp [below, ih]

theorem below_last (name : Path) (st : List Path) :
    below (st ++ [name]) = name ++ '/' :: below st := by
  rw [below_append]
  simp [below]

theorem name_slash_inj {other rest rest' : Path} (hname : '/' ∉ name) (hother : '/' ∉ other)
    (heq : name ++ '/' :: rest = other ++ '/' :: rest') : name = other ∧ rest = rest' := by
  have hsplit := congrArg (List.splitOn '/') heq
  rw [splitOn_name_slash hname, splitOn_name_slash hother] at hsplit
  have hsame : name = other := (cons.inj hsplit).1
  rw [hsame] at heq
  exact ⟨hsame, (cons.inj (append_cancel_left heq)).2⟩

theorem below_prefix_iff (outer : List Path) :
    ∀ st : List Path, (∀ name ∈ outer, '/' ∉ name) → (∀ name ∈ st, '/' ∉ name) →
      (below outer <+: below st ↔ outer <:+ st) := by
  induction outer using reverseRecOn with
  | nil =>
    intro st _ _
    exact iff_of_true (List.nil_prefix) (nil_suffix)
  | append_singleton outer name ih =>
    intro st houter hst
    have hname : '/' ∉ name := houter name (by simp)
    have hrest : ∀ n ∈ outer, '/' ∉ n := fun n hn => houter n (by simp [hn])
    cases st using reverseRecOn with
    | nil =>
      refine iff_of_false (fun h => ?_) (fun h => ?_)
      · have hlen := h.length_le
        simp [below_last, below] at hlen
      · have hlen := h.length_le
        simp at hlen
    | append_singleton st other =>
      have hother : '/' ∉ other := hst other (by simp)
      have hinner : ∀ n ∈ st, '/' ∉ n := fun n hn => hst n (by simp [hn])
      rw [below_last, below_last]
      constructor
      · rintro ⟨tail, htail⟩
        rw [append_assoc, cons_append] at htail
        obtain ⟨hsame, hbelow⟩ := name_slash_inj hname hother htail
        have hsuffix := (ih st hrest hinner).mp ⟨tail, hbelow⟩
        rw [hsame]
        exact suffix_append_self_iff.mpr hsuffix
      · intro hsuffix
        have hlast : name = other := by
          have hl := hsuffix.getLast (by simp)
          simpa using hl
        rw [hlast] at hsuffix ⊢
        have hbelow := (ih st hrest hinner).mpr (suffix_append_self_iff.mp hsuffix)
        exact (prefix_append_right_inj other).mpr ((prefix_cons_inj '/').mpr hbelow)

theorem render_append_slash {st : List Path} (hst : st ≠ []) :
    render st ++ ['/'] = directory st := by
  cases st with
  | nil => contradiction
  | cons name st => rfl

theorem render_prefix_directory (st : List Path) : render st <+: directory st := by
  cases st with
  | nil => exact prefix_rfl
  | cons name st => exact prefix_append _ _

theorem directory_prefix_iff (houter : ∀ name ∈ outer, '/' ∉ name)
    (hst : ∀ name ∈ st, '/' ∉ name) : directory outer <+: directory st ↔ outer <:+ st := by
  rw [directory_eq_below, directory_eq_below, prefix_cons_inj]
  exact below_prefix_iff outer st houter hst

theorem directory_length_pos (st : List Path) : 0 < (directory st).length := by
  rw [directory_eq_below]
  exact Nat.succ_pos _

theorem one_lt_render_length (hst : ∀ name ∈ st, ProperName name) :
    1 < (render st).length ↔ st ≠ [] := by
  cases st with
  | nil => exact iff_of_false (Nat.lt_irrefl 1) (fun h => h rfl)
  | cons name st =>
    have hname := length_pos_iff.mpr (hst name mem_cons_self).ne_nil
    have hdir := directory_length_pos st
    refine iff_of_true ?_ (cons_ne_nil _ _)
    rw [render, length_append]
    omega

theorem render_inj (houter : ∀ name ∈ outer, ProperName name)
    (hst : ∀ name ∈ st, ProperName name) (heq : render outer = render st) : outer = st := by
  have hroot : outer ≠ [] ↔ st ≠ [] := by
    rw [← one_lt_render_length houter, ← one_lt_render_length hst, heq]
  by_cases hnil : st = []
  · rw [hnil]
    by_contra h
    exact (hroot.mp h) hnil
  · have hdir : directory outer = directory st := by
      rw [← render_append_slash (hroot.mpr hnil), ← render_append_slash hnil, heq]
    have hout := fun name hmem => (houter name hmem).noSlash
    have hin := fun name hmem => (hst name hmem).noSlash
    have hle := (directory_prefix_iff hout hin).mp (hdir ▸ prefix_rfl)
    have hge := (directory_prefix_iff hin hout).mp (hdir ▸ prefix_rfl)
    exact hle.eq_of_length (Nat.le_antisymm hle.length_le hge.length_le)

/-- Stacks of names contain each other as their paths do. -/
theorem contains_iff (houter : ∀ name ∈ outer, ProperName name)
    (hst : ∀ name ∈ st, ProperName name) : outer <:+ st ↔ render outer <+: render st ∧
      (outer = [] ∨ render outer = render st ∨ (render st)[(render outer).length]? = some '/') := by
  have hout := fun name hmem => (houter name hmem).noSlash
  have hin := fun name hmem => (hst name hmem).noSlash
  constructor
  · intro hsuffix
    by_cases hsame : outer = st
    · rw [hsame]
      exact ⟨prefix_rfl, .inr (.inl rfl)⟩
    · have hdir := (directory_prefix_iff hout hin).mpr hsuffix
      have hst' : st ≠ [] := by
        intro hnil
        rw [hnil] at hsuffix hsame
        exact hsame (suffix_nil.mp hsuffix)
      -- the directory is shorter than that of the path, so it fits before its last slash
      have hshort : (directory outer).length ≤ (render st).length := by
        have hlt : (directory outer).length ≠ (directory st).length := by
          intro hlen
          have heq := hdir.eq_of_length hlen
          exact hsame (hsuffix.eq_of_length (Nat.le_antisymm hsuffix.length_le
            ((directory_prefix_iff hin hout).mp (heq ▸ prefix_rfl)).length_le))
        have hle := hdir.length_le
        have hlen := congrArg List.length (render_append_slash hst')
        rw [length_append, length_singleton] at hlen
        omega
      have hfits : directory outer <+: render st :=
        prefix_of_prefix_length_le hdir (render_prefix_directory st) hshort
      refine ⟨(render_prefix_directory outer).trans hfits, ?_⟩
      by_cases hroot : outer = []
      · exact .inl hroot
      · right
        right
        obtain ⟨tail, htail⟩ := hfits
        rw [← render_append_slash hroot] at htail
        rw [← htail]
        simp
  · rintro ⟨hstarts, hroot | hsame | hslash⟩
    · rw [hroot]
      exact nil_suffix
    · rw [render_inj houter hst hsame]
    · by_cases hroot : outer = []
      · rw [hroot]
        exact nil_suffix
      · obtain ⟨tail, htail⟩ := hstarts
        cases tail with
        | nil =>
          rw [append_nil] at htail
          rw [render_inj houter hst htail]
        | cons c tail =>
          rw [← htail] at hslash
          have hc : c = '/' := by simpa using hslash
          have hfits : directory outer <+: render st := by
            rw [← render_append_slash hroot, ← htail, hc]
            exact ⟨tail, by simp⟩
          exact (directory_prefix_iff hout hin).mp (hfits.trans (render_prefix_directory st))

theorem resolveNames_below (st : List Path) : ∀ src : Path, (∀ name ∈ st, ProperName name) →
      resolveNames ((below st ++ src).splitOn '/') [] = resolveNames (src.splitOn '/') st := by
  induction st with
  | nil =>
    intro src _
    rfl
  | cons name st ih =>
    intro src hst
    have hname := hst name mem_cons_self
    have hrest : ∀ n ∈ st, ProperName n := fun n hn => hst n (mem_cons_of_mem _ hn)
    have hassoc : below (name :: st) ++ src = below st ++ (name ++ '/' :: src) := by
      simp [below]
    rw [hassoc, ih _ hrest, splitOn_name_slash hname.noSlash, resolveNames_cons,
      pushName_proper hname]
    rfl

section

variable (hst : ∀ name ∈ st, ProperName name)
include hst

theorem resolve_directory (src : Path) :
    resolve (directory st ++ src) = resolveNames (src.splitOn '/') st := by
  rw [directory_eq_below, cons_append, resolve]
  exact resolveNames_below st src hst

theorem resolve_directory_self : resolve (directory st) = some st := by
  have hempty := resolve_directory hst []
  rw [append_nil] at hempty
  rw [hempty]
  exact pushName_nil

theorem resolve_render : resolve (render st) = some st := by
  cases st with
  | nil => exact resolve_directory_self hst
  | cons name st =>
    have hname := hst name mem_cons_self
    have hrest : ∀ n ∈ st, ProperName n := fun n hn => hst n (mem_cons_of_mem _ hn)
    rw [render, resolve_directory hrest, splitOn_name hname.noSlash, resolveNames_cons,
      pushName_proper hname]
    rfl

end

theorem resolve_slash (src : Path) : resolve ('/' :: '/' :: src) = resolve ('/' :: src) := by
  have hsplit : ('/' :: src).splitOn '/' = [] :: src.splitOn '/' :=
    @splitOn_name_slash [] src not_mem_nil
  rw [resolve, resolve, hsplit, resolveNames_cons, pushName_nil]
  rfl

theorem render_head (st : List Path) : ∃ src, render st = '/' :: src := by
  cases st with
  | nil => exact ⟨[], rfl⟩
  | cons name st =>
    rw [render, directory_eq_below]
    exact ⟨_, rfl⟩

theorem ProperName.head_ne (hname : ProperName name) (src : Path) :
    (name ++ src).head? ≠ some '/' := by
  obtain ⟨c, rest, hcons⟩ := exists_cons_of_ne_nil hname.ne_nil
  intro hslash
  rw [hcons] at hslash
  refine hname.noSlash ?_
  rw [hcons, ← some.inj hslash]
  exact mem_cons_self

theorem below_head_ne (hst : ∀ name ∈ st, ProperName name) (hsrc : src.head? ≠ some '/') :
    (below st ++ src).head? ≠ some '/' := by
  cases st using reverseRecOn with
  | nil => exact hsrc
  | append_singleton st name =>
    rw [below_last, append_assoc]
    exact (hst name (by simp)).head_ne _

theorem render_second_ne (hst : ∀ name ∈ st, ProperName name) (hsrc : render st = '/' :: src) :
    src.head? ≠ some '/' := by
  cases st with
  | nil =>
    have hnil : src = [] := (cons.inj hsrc).2.symm
    rw [hnil]
    exact (some_ne_none _).symm
  | cons name st =>
    rw [render, directory_eq_below, cons_append] at hsrc
    have hname := hst name mem_cons_self
    rw [← (cons.inj hsrc).2]
    have hhead := hname.head_ne []
    rw [append_nil] at hhead
    exact below_head_ne (fun n hn => hst n (mem_cons_of_mem _ hn)) hhead

theorem Contains.eq_of_length {mount other path : Path} (hmount : Contains mount path)
    (hother : Contains other path) (hlen : mount.length = other.length) : mount = other := by
  obtain ⟨outer, st, hst, rfl, rfl, hsuffix⟩ := hmount
  obtain ⟨outer', st', hst', rfl, hpath, hsuffix'⟩ := hother
  have hsame := render_inj hst hst' hpath
  rw [← hsame] at hsuffix'
  have hproper := fun name hmem => hst name (hsuffix.mem hmem)
  have hproper' := fun name hmem => hst name (hsuffix'.mem hmem)
  have hstarts := ((contains_iff hproper hst).mp hsuffix).1
  have hstarts' := ((contains_iff hproper' hst).mp hsuffix').1
  exact (prefix_of_prefix_length_le hstarts hstarts' hlen.le).eq_of_length hlen

end Spelling

end RtThread.SlashPath
