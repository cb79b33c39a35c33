import RtThread.DfsDescriptors
import RtThread.SlashPaths
import Mathlib.Data.List.TakeWhile

/-!
# Path spellings

`dfs_normalize_path` rewrites a spelling in place.  What it has written is kept
here with the last character first.
-/

namespace RtThread.Dfs

open List Option SlashPath

open SlashPath (ProperName below directory render resolve resolveNames pushName)

/-- `up_one`: leave the directory; there is nothing to leave when nothing is written. -/
def upOne : Path → Option Path
  | [] => none
  | _ :: out => some (out.dropWhile (· ≠ '/'))

def skipSlashes (src : Path) : Path := src.dropWhile (· = '/')

def normalizeLoop : ℕ → Path → Path → Option Path
  | 0, _, _ => none
  | fuel + 1, src, out =>
    let name := src.takeWhile (· ≠ '/')
    let rest := src.dropWhile (· ≠ '/')
    if name = ['.'] then normalizeLoop fuel (skipSlashes rest) out
    else if name = ['.', '.'] then (upOne out).bind (normalizeLoop fuel (skipSlashes rest))
    else if rest = [] then some (name.reverse ++ out)
    else normalizeLoop fuel (skipSlashes rest) ('/' :: (name.reverse ++ out))

def stripSlash : Path → Path
  | '/' :: c :: out => (c :: out).reverse
  | out => out.reverse

/-- The spelling from the working directory (`none` without `DFS_USING_WORKDIR`). -/
def absolute (workingDirectory : Option Path) (filename : Path) : Option Path :=
  if filename.head? = some '/' then some filename
  else workingDirectory.map fun directory => directory ++ '/' :: filename

/-- `dfs_normalize_path(RT_NULL, filename)`; `memory` tells whether there is memory for the
result. -/
def dfsNormalizePath (workingDirectory : Option Path) (memory : Bool) (filename : Path) :
    Option Path :=
  (absolute workingDirectory filename).bind fun src =>
    if memory then (normalizeLoop (src.length + 1) src []).map stripSlash else none

section Loop

variable {fuel : ℕ} {src rest out name : Path} {st st' : List Path}

theorem stripSlash_slash (hout : out ≠ []) : stripSlash ('/' :: out) = out.reverse := by
  cases out with
  | nil => contradiction
  | cons c out => rfl

theorem stripSlash_other (hout : out.head? ≠ some '/') : stripSlash out = out.reverse := by
  unfold stripSlash
  split
  · contradiction
  · rfl

theorem directory_reverse (name : Path) (st : List Path) :
    (directory (name :: st)).reverse = '/' :: (name.reverse ++ (directory st).reverse) := by
  simp [directory]

theorem directory_ne_nil (st : List Path) : directory st ≠ [] := by
  cases st <;> simp [directory]

theorem stripSlash_directory (st : List Path) : stripSlash (directory st).reverse = render st := by
  cases st with
  | nil => rfl
  | cons name st =>
    have hne : name.reverse ++ (directory st).reverse ≠ [] := by
      simp [directory_ne_nil]
    rw [directory_reverse, stripSlash_slash hne]
    simp [render]

theorem stripSlash_name (hname : ProperName name) (st : List Path) :
    stripSlash (name.reverse ++ (directory st).reverse) = render (name :: st) := by
  have hhead : (name.reverse ++ (directory st).reverse).head? ≠ some '/' := by
    intro hslash
    have hrev : name.reverse ≠ [] := by simpa using hname.ne_nil
    rw [head?_append_of_ne_nil _ hrev] at hslash
    exact hname.noSlash (mem_reverse.mp (mem_of_mem_head? hslash))
  rw [stripSlash_other hhead]
  simp [render]

theorem skipSlashes_head (src : Path) : (skipSlashes src).head? ≠ some '/' := by
  intro hslash
  have hhead := head?_dropWhile_not (· = '/') src
  unfold skipSlashes at hslash
  rw [hslash] at hhead
  simp at hhead

theorem noSlash_takeWhile (src : Path) : '/' ∉ src.takeWhile (· ≠ '/') := by
  intro hslash
  have hne := mem_takeWhile_imp hslash
  simp at hne

theorem rest_cases (src : Path) :
    src.dropWhile (· ≠ '/') = [] ∨ ∃ rest, src.dropWhile (· ≠ '/') = '/' :: rest := by
  cases hrest : src.dropWhile (· ≠ '/') with
  | nil => exact .inl rfl
  | cons c rest =>
    have hhead := head?_dropWhile_not (· ≠ '/') src
    rw [hrest] at hhead
    have hc : c = '/' := by simpa using hhead
    exact .inr ⟨rest, by rw [hc]⟩

/-- The directories written so far, behind the slash of the root unless `..` has taken that. -/
structure Place where
  rooted : Bool
  st : List Path

def Place.written (place : Place) : Path :=
  if place.rooted then directory place.st else below place.st

def walkName (place : Place) (name : Path) : Option Place :=
  if name = [] ∨ name = ['.'] then some place
  else if name = ['.', '.'] then
    match place.st, place.rooted with
    | _ :: st, rooted => some ⟨rooted, st⟩
    | [], true => some ⟨false, []⟩
    | [], false => none
  else some ⟨place.rooted, name :: place.st⟩

def walk (names : List Path) (place : Place) : Option Place := names.foldlM walkName place

section Walk

variable {place up : Place}

theorem walk_cons (name : Path) (names : List Path) (place : Place) :
    walk (name :: names) place = (walkName place name).bind (walk names) :=
  foldlM_cons

theorem walkName_nil (place : Place) : walkName place [] = some place := if_pos (.inl rfl)

theorem walkName_dot (place : Place) : walkName place ['.'] = some place :=
  if_pos (.inr rfl)

theorem walkName_proper (hname : ProperName name) (place : Place) :
    walkName place name = some ⟨place.rooted, name :: place.st⟩ := by
  have hskip : ¬ (name = [] ∨ name = ['.']) := not_or.mpr ⟨hname.ne_nil, hname.ne_dot⟩
  unfold walkName
  rw [if_neg hskip, if_neg hname.ne_dotdot]

theorem written_push (rooted : Bool) (name : Path) (st : List Path) :
    (Place.mk rooted (name :: st)).written.reverse =
      '/' :: (name.reverse ++ (Place.mk rooted st).written.reverse) := by
  cases rooted <;> simp [Place.written, directory, below]

theorem walkName_up (rooted : Bool) (st : List Path) (hst : ∀ name ∈ st, ProperName name) :
    upOne (Place.mk rooted st).written.reverse =
      (walkName ⟨rooted, st⟩ ['.', '.']).map fun up => up.written.reverse := by
  cases st with
  | nil => cases rooted <;> rfl
  | cons name st =>
    have hname := hst name mem_cons_self
    have hall : ∀ c ∈ name.reverse, decide (c ≠ '/') = true := by
      intro c hc
      have hne : c ≠ '/' := fun hslash => hname.noSlash (hslash ▸ mem_reverse.mp hc)
      simpa using hne
    have hdir : (Place.mk rooted st).written.reverse.dropWhile (· ≠ '/') = (Place.mk rooted st).written.reverse := by
      cases rooted <;> cases st <;> simp [Place.written, directory, below]
    rw [written_push, upOne, dropWhile_append_of_pos hall, hdir]
    rfl

theorem walkName_proper_all (hst : ∀ name ∈ place.st, ProperName name)
    (hup : walkName place ['.', '.'] = some up) : ∀ name ∈ up.st, ProperName name := by
  obtain ⟨rooted, st⟩ := place
  cases st with
  | nil =>
    cases rooted with
    | true =>
      rw [← some.inj hup]
      exact nofun
    | false => cases hup
  | cons name st =>
    rw [← some.inj hup]
    exact fun n hn => hst n (mem_cons_of_mem _ hn)

theorem walk_skip (src : Path) (place : Place) :
    walk ((skipSlashes src).splitOn '/') place = walk (src.splitOn '/') place := by
  induction src with
  | nil => rfl
  | cons c src ih =>
    by_cases hc : c = '/'
    · have hsplit : (c :: src).splitOn '/' = [] :: src.splitOn '/' := by
        rw [hc]
        exact @splitOn_name_slash [] src not_mem_nil
      have hdrop : skipSlashes (c :: src) = skipSlashes src := by simp [skipSlashes, hc]
      rw [hdrop, ih, hsplit, walk_cons, walkName_nil, bind_some]
    · have hdrop : skipSlashes (c :: src) = c :: src := by simp [skipSlashes, hc]
      rw [hdrop]

theorem walk_name (src : Path) (place : Place) : walk (src.splitOn '/') place =
      (walkName place (src.takeWhile (· ≠ '/'))).bind
        (walk ((skipSlashes (src.dropWhile (· ≠ '/'))).splitOn '/')) := by
  have hsrc : src.takeWhile (· ≠ '/') ++ src.dropWhile (· ≠ '/') = src :=
    takeWhile_append_dropWhile
  obtain hrest | ⟨rest, hrest⟩ := rest_cases src
  · rw [hrest, append_nil] at hsrc
    have hsplit : src.splitOn '/' = [src.takeWhile (· ≠ '/')] := by
      nth_rewrite 1 [← hsrc]
      exact splitOn_name (noSlash_takeWhile src)
    rw [hsplit, hrest, walk_cons]
    rfl
  · rw [hrest] at hsrc
    have hsplit : src.splitOn '/' = src.takeWhile (· ≠ '/') :: rest.splitOn '/' := by
      nth_rewrite 1 [← hsrc]
      exact splitOn_name_slash (noSlash_takeWhile src)
    have hdrop : skipSlashes ('/' :: rest) = skipSlashes rest := by simp [skipSlashes]
    have hskip : ∀ place, walk ((skipSlashes rest).splitOn '/') place =
        walk (rest.splitOn '/') place := walk_skip rest
    rw [hsplit, hrest, walk_cons, hdrop, funext hskip]

def Ends (out : Path) (place : Place) : Prop :=
  out = place.written.reverse ∨ ∃ name st, place.st = name :: st ∧
      out = name.reverse ++ (Place.mk place.rooted st).written.reverse

theorem normalizeLoop_walk (fuel : ℕ) : ∀ src place, src.length < fuel → src.head? ≠ some '/' →
      (∀ name ∈ place.st, ProperName name) → (walk (src.splitOn '/') place = none →
        normalizeLoop fuel src place.written.reverse = none) ∧
      ∀ up, walk (src.splitOn '/') place = some up → (∀ name ∈ up.st, ProperName name) ∧
          ∃ out, normalizeLoop fuel src place.written.reverse = some out ∧ Ends out up := by
  induction fuel with
  | zero =>
    intro src place hlen
    cases hlen
  | succ fuel ih =>
    intro src place hlen hhead hst
    rw [walk_name]
    have hsrc : src.takeWhile (· ≠ '/') ++ src.dropWhile (· ≠ '/') = src :=
      takeWhile_append_dropWhile
    have hslash := noSlash_takeWhile src
    have hrest := rest_cases src
    rw [normalizeLoop]
    generalize src.takeWhile (· ≠ '/') = name at *
    generalize src.dropWhile (· ≠ '/') = rest at *
    have hshort : name ≠ [] → (skipSlashes rest).length < fuel := by
      intro hne
      have hpos := length_pos_iff.mpr hne
      have hle : (skipSlashes rest).length ≤ rest.length := (dropWhile_sublist _).length_le
      rw [← hsrc, length_append] at hlen
      omega
    by_cases hdot : name = ['.']
    · rw [if_pos hdot, hdot, walkName_dot, bind_some]
      exact ih _ place (hshort (by simp [hdot])) (skipSlashes_head rest) hst
    · rw [if_neg hdot]
      by_cases hdotdot : name = ['.', '.']
      · rw [if_pos hdotdot, hdotdot, walkName_up place.rooted place.st hst]
        cases hup : walkName place ['.', '.'] with
        | none =>
          exact ⟨fun _ => rfl, fun up hup => absurd hup.symm (some_ne_none up)⟩
        | some up =>
          have hproper := walkName_proper_all hst hup
          exact ih _ up (hshort (by simp [hdotdot])) (skipSlashes_head rest) hproper
      · rw [if_neg hdotdot]
        by_cases hne : name = []
        · have hlast : rest = [] := by
            obtain hrest | ⟨tail, hrest⟩ := hrest
            · exact hrest
            · rw [hne, hrest, nil_append] at hsrc
              rw [← hsrc] at hhead
              contradiction
          have hend : walk ((skipSlashes []).splitOn '/') place = some place := walkName_nil place
          rw [hne, hlast, walkName_nil, bind_some, hend, if_pos rfl]
          refine ⟨nofun, fun up hup => ?_⟩
          rw [← some.inj hup]
          exact ⟨hst, _, rfl, .inl rfl⟩
        · have hname : ProperName name := ⟨hne, hdot, hdotdot, hslash⟩
          have hpush : ∀ n ∈ name :: place.st, ProperName n := by
            intro n hmem
            obtain rfl | hmem := mem_cons.mp hmem
            · exact hname
            · exact hst n hmem
          have hstep : walkName place name = some ⟨place.rooted, name :: place.st⟩ :=
            walkName_proper hname place
          rw [hstep, bind_some]
          by_cases hlast : rest = []
          · have hend : walk ((skipSlashes []).splitOn '/') ⟨place.rooted, name :: place.st⟩ =
                some ⟨place.rooted, name :: place.st⟩ := walkName_nil _
            rw [hlast, hend, if_pos rfl]
            refine ⟨nofun, fun up hup => ?_⟩
            rw [← some.inj hup]
            exact ⟨hpush, _, rfl, .inr ⟨name, place.st, rfl, rfl⟩⟩
          · rw [if_neg hlast, ← written_push]
            exact ih _ ⟨place.rooted, name :: place.st⟩ (hshort hne) (skipSlashes_head rest) hpush

theorem walk_of_resolveNames (names : List Path) :
    ∀ st, resolveNames names st = some st' → walk names ⟨true, st⟩ = some ⟨true, st'⟩ := by
  induction names with
  | nil =>
    intro st hresolve
    rw [← some.inj hresolve]
    rfl
  | cons name names ih =>
    intro st hresolve
    rw [resolveNames_cons] at hresolve
    obtain ⟨next, hpush, hrest⟩ := bind_eq_some_iff.mp hresolve
    have hstep : walkName ⟨true, st⟩ name = some ⟨true, next⟩ := by
      unfold pushName at hpush
      unfold walkName
      split at hpush
      · rw [if_pos ‹_›, some.inj hpush]
      · rw [if_neg ‹_›]
        split at hpush
        · rw [if_pos ‹_›]
          cases st with
          | nil => cases hpush
          | cons top st => exact congrArg (fun st => some (Place.mk true st)) (some.inj hpush)
        · rw [if_neg ‹_›]
          exact congrArg (fun st => some (Place.mk true st)) (some.inj hpush)
    rw [walk_cons, hstep, bind_some]
    exact ih next hrest

theorem stripSlash_ends {out : Path} (hst : ∀ name ∈ st, ProperName name)
    (hout : Ends out ⟨true, st⟩) : stripSlash out = render st := by
  rcases hout with hout | ⟨name, rest, hcons, hout⟩
  · rw [hout]
    exact stripSlash_directory st
  · have hcons' : st = name :: rest := hcons
    rw [hcons'] at hst ⊢
    rw [hout]
    exact stripSlash_name (hst name mem_cons_self) rest

theorem normalizeLoop_resolve (fuel : ℕ) (src : Path) (st : List Path) (hlen : src.length < fuel)
    (hhead : src.head? ≠ some '/') (hst : ∀ name ∈ st, ProperName name)
    (hresolve : resolveNames (src.splitOn '/') st = some st') : (∀ name ∈ st', ProperName name) ∧
      ∃ out, normalizeLoop fuel src (directory st).reverse = some out ∧
        stripSlash out = render st' := by
  have hwalk := walk_of_resolveNames _ st hresolve
  obtain ⟨hproper, out, hloop, hends⟩ :=
    (normalizeLoop_walk fuel src ⟨true, st⟩ hlen hhead hst).2 _ hwalk
  exact ⟨hproper, out, hloop, stripSlash_ends hproper hends⟩

def Place.depth (place : Place) : ℤ :=
  if place.rooted then place.st.length else place.st.length - 1

theorem Place.depth_rooted (st : List Path) : (Place.mk true st).depth = st.length := rfl

theorem Place.neg_one_le_depth (place : Place) : -1 ≤ place.depth := by
  unfold Place.depth
  split <;> omega

theorem walkName_depth {name : Path} (hup : walkName place name = some up) :
    up.depth = place.depth + SlashPath.height name ∧
      (up.rooted = true ↔ place.rooted = true ∧ 0 ≤ up.depth) := by
  obtain ⟨rooted, st⟩ := place
  have hdepth : ∀ rooted (st : List Path), (Place.mk rooted st).rooted = true →
      0 ≤ (Place.mk rooted st).depth := by
    intro rooted st hrooted
    have hrooted' : rooted = true := hrooted
    rw [hrooted', Place.depth_rooted]
    omega
  unfold walkName at hup
  unfold height
  by_cases hskip : name = [] ∨ name = ['.']
  · rw [if_pos hskip] at hup ⊢
    rw [← some.inj hup, add_zero]
    exact ⟨rfl, fun h => ⟨h, hdepth rooted st h⟩, fun h => h.1⟩
  · rw [if_neg hskip] at hup ⊢
    by_cases hdotdot : name = ['.', '.']
    · rw [if_pos hdotdot] at hup ⊢
      cases st with
      | nil =>
        cases rooted with
        | true =>
          rw [← some.inj hup]
          exact ⟨rfl, nofun, fun h => absurd h.2 (by decide)⟩
        | false => cases hup
      | cons top st =>
        rw [← some.inj hup]
        constructor
        · unfold Place.depth
          cases rooted with
          | false =>
            simp
            omega
          | true => simp
        · exact ⟨fun h => ⟨h, hdepth rooted st h⟩, fun h => h.1⟩
    · rw [if_neg hdotdot] at hup ⊢
      rw [← some.inj hup]
      constructor
      · unfold Place.depth
        cases rooted <;> simp
      · exact ⟨fun h => ⟨h, hdepth rooted _ h⟩, fun h => h.1⟩

theorem walk_lowest (names : List Path) :
    ∀ place, (walk names place = none ↔ place.depth + SlashPath.lowest names < -1) ∧
      ∀ up, walk names place = some up →
        (up.rooted = true ↔ place.rooted = true ∧ 0 ≤ place.depth + SlashPath.lowest names) := by
  induction names with
  | nil =>
    intro place
    have hlow := place.neg_one_le_depth
    have hend : walk [] place = some place := rfl
    rw [hend, lowest, add_zero]
    refine ⟨iff_of_false (some_ne_none _) (by lia), fun up hup => ?_⟩
    rw [← some.inj hup]
    have hself := walkName_depth (walkName_nil place)
    exact hself.2
  | cons name names ih =>
    intro place
    have hlow := place.neg_one_le_depth
    rw [walk_cons, lowest]
    have hrest := lowest_nonpos names
    cases hstep : walkName place name with
    | none =>
      have hdeep : place.depth = -1 ∧ height name = -1 := by
        obtain ⟨rooted, st⟩ := place
        unfold walkName at hstep
        split at hstep
        · cases hstep
        · split at hstep
          · rename_i hskip hdotdot
            cases st with
            | nil =>
              cases rooted with
              | true => cases hstep
              | false =>
                refine ⟨rfl, ?_⟩
                unfold height
                rw [if_neg hskip, if_pos hdotdot]
            | cons top st => cases hstep
          · cases hstep
      rw [bind_none]
      refine ⟨iff_of_true rfl (by lia), fun up hup => ?_⟩
      cases hup
    | some next =>
      obtain ⟨hdepth, hrooted⟩ := walkName_depth hstep
      obtain ⟨hnone, hsome⟩ := ih next
      rw [bind_some]
      constructor
      · rw [hnone, hdepth]
        lia
      · intro up hup
        rw [hsome up hup, hrooted, hdepth]
        have hroot : place.rooted = true → 0 ≤ place.depth := by
          intro h
          unfold Place.depth
          rw [if_pos h]
          lia
        constructor
        · intro h
          exact ⟨h.1.1, by have := hroot h.1.1; lia⟩
        · intro h
          exact ⟨⟨h.1, by lia⟩, by lia⟩

theorem resolveNames_of_walk (names : List Path) :
    ∀ st, walk names ⟨true, st⟩ = some ⟨true, st'⟩ → resolveNames names st = some st' := by
  induction names with
  | nil =>
    intro st hwalk
    exact congrArg some (congrArg Place.st (some.inj hwalk))
  | cons name names ih =>
    intro st hwalk
    rw [walk_cons] at hwalk
    obtain ⟨next, hstep, hrest⟩ := bind_eq_some_iff.mp hwalk
    have hrooted : next.rooted = true := (((walk_lowest names next).2 _ hrest).mp rfl).1
    have hpush : pushName st name = some next.st := by
      unfold walkName at hstep
      unfold pushName
      split at hstep
      · rw [if_pos ‹_›, ← some.inj hstep]
      · rw [if_neg ‹_›]
        split at hstep
        · rw [if_pos ‹_›]
          cases st with
          | nil =>
            rw [← some.inj hstep] at hrooted
            cases hrooted
          | cons top st => rw [← some.inj hstep]
        · rw [if_neg ‹_›, ← some.inj hstep]
    have hnext : next = ⟨true, next.st⟩ := by rw [← hrooted]
    rw [resolveNames_cons, hpush, bind_some]
    rw [hnext] at hrest
    exact ih next.st hrest

end Walk

theorem dfsNormalizePath_of_resolve {workingDirectory : Option Path} {filename src : Path}
    (hsrc : absolute workingDirectory filename = some src) (hresolve : resolve src = some st) :
    dfsNormalizePath workingDirectory true filename = some (render st) ∧
      ∀ name ∈ st, ProperName name := by
  obtain ⟨tail, rfl⟩ : ∃ tail, src = '/' :: tail := by
    unfold resolve at hresolve
    split at hresolve
    · exact ⟨_, rfl⟩
    · cases hresolve
  have hskip : resolveNames ((skipSlashes tail).splitOn '/') [] = some st :=
    resolveNames_skip.trans hresolve
  have hlen : (skipSlashes tail).length < tail.length + 1 :=
    Nat.lt_succ_of_le (dropWhile_sublist _).length_le
  obtain ⟨hproper, out, hloop, hstrip⟩ :=
    normalizeLoop_resolve (tail.length + 1) (skipSlashes tail) [] hlen (skipSlashes_head tail)
      (nofun) hskip
  -- the slash at the start is copied as an empty name
  have hfirst : normalizeLoop (tail.length + 2) ('/' :: tail) [] =
      normalizeLoop (tail.length + 1) (skipSlashes tail) ['/'] := by
    rw [normalizeLoop]
    simp [skipSlashes]
  refine ⟨?_, hproper⟩
  rw [dfsNormalizePath, hsrc, bind_some, if_pos rfl, length_cons, hfirst]
  have hroot : (directory []).reverse = ['/'] := rfl
  rw [hroot] at hloop
  rw [hloop, map_some, hstrip]

end Loop

end RtThread.Dfs
