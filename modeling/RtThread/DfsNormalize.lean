import RtThread.DfsPaths

/-!
# Rewriting a spelling in its buffer

`dfs_normalize_path` with its two cursors.  An access outside the buffer has no
result.  Up to the last slash the cursors do what `normalizeLoop` does.
-/

namespace RtThread.Dfs

open List Option SlashPath

open SlashPath (ProperName Normalised below render resolveNames lowest settle)

abbrev Buffer := List Char

def NUL : Char := Char.ofNat 0

/-- The buffer with the pointers at which the loop reads and writes. -/
structure Cursors where
  buf : Buffer
  src : ℕ
  dst : ℕ

/-- `*dst ++ = c` -/
def Cursors.put (s : Cursors) (c : Char) : Option Cursors :=
  if s.dst < s.buf.length then
    some { s with buf := s.buf.set s.dst c, dst := s.dst + 1 }
  else none

/-- `while ((*src == '/') && (*src != '\0')) src ++;` -/
def skipAt (buf : Buffer) : ℕ → ℕ → Option ℕ
  | 0, _ => none
  | fuel + 1, src =>
    buf[src]?.bind fun c => if c = '/' then skipAt buf fuel (src + 1) else some src

inductive Component
  | name (src : ℕ)
  | current (src : ℕ)
  | parent (src : ℕ)

def look (buf : Buffer) (src : ℕ) : Option Component :=
  buf[src]?.bind fun c =>
    if c ≠ '.' then some (.name src)
    else
      buf[src + 1]?.bind fun c =>
        if c = NUL then some (.name (src + 1))
        else if c = '/' then (skipAt buf buf.length (src + 2)).map .current
        else if c ≠ '.' then some (.name src)
        else
          buf[src + 2]?.bind fun c =>
            if c = NUL then some (.parent (src + 2))
            else if c = '/' then (skipAt buf buf.length (src + 3)).map .parent
            else some (.name src)

/-- `while ((c = *src++) != '\0' && c != '/') *dst ++ = c;` with the last `c`. -/
def copyName : ℕ → Cursors → Option (Char × Cursors)
  | 0, _ => none
  | fuel + 1, s =>
    s.buf[s.src]?.bind fun c =>
      if c ≠ NUL ∧ c ≠ '/' then
        (Cursors.put { s with src := s.src + 1 } c).bind (copyName fuel)
      else some (c, { s with src := s.src + 1 })

/-- `while (dst0 < dst && dst[-1] != '/') dst --;` -/
def backUp (buf : Buffer) : ℕ → Option ℕ
  | 0 => some 0
  | dst + 1 => buf[dst]?.bind fun c => if c ≠ '/' then backUp buf dst else some (dst + 1)

/-- The loop.  `some none` is the return of `RT_NULL` at `up_one`. -/
def rewriteLoop : ℕ → Cursors → Option (Option Cursors)
  | 0, _ => none
  | fuel + 1, s =>
    (look s.buf s.src).bind fun
      | .current src => rewriteLoop fuel { s with src := src }
      | .parent src =>
        match s.dst with
        | 0 => some none
        | dst + 1 =>
          (backUp s.buf dst).bind fun dst => rewriteLoop fuel { s with src := src, dst := dst }
      | .name src =>
        (copyName s.buf.length { s with src := src }).bind fun (c, s) =>
          if c = '/' then
            (s.put '/').bind fun s =>
              -- while (c == '/') c = *src++; src --;
              (skipAt s.buf s.buf.length s.src).bind fun src =>
                rewriteLoop fuel { s with src := src }
          else some (some s)

/-- The terminator, and the slash before it.  At the start of the buffer `dst --` leaves it. -/
def terminate (buf : Buffer) (dst : ℕ) : Option Buffer :=
  if dst < buf.length then
    match dst with
    | 0 => none
    | 1 => some (buf.set 1 NUL)
    | dst + 2 =>
      (buf.set (dst + 2) NUL)[dst + 1]?.map fun c =>
        if c = '/' then (buf.set (dst + 2) NUL).set (dst + 1) NUL else buf.set (dst + 2) NUL
  else none

def cString (buf : Buffer) : Path := buf.takeWhile (· ≠ NUL)

def rewrite (spelling : Path) : Option (Option Path) :=
  (rewriteLoop (spelling.length + 1) ⟨spelling ++ [NUL], 0, 0⟩).bind fun
    | none => some none
    | some s => (terminate s.buf s.dst).map fun buf => some (cString buf)

def joined (directory filename : Path) : Path :=
  if filename.head? = some '/' then filename else directory ++ '/' :: filename

/-- `dfs_normalize_path`; `memory` tells whether there is memory for the buffer.  `some none` is
`RT_NULL`, `none` an access outside the buffer. -/
def normalizePath (memory : Bool) (directory filename : Path) : Option (Option Path) :=
  if memory then rewrite (joined directory filename) else some none

/-- `tail` is what is left to read and `out` what has been written, the last character first. -/
structure Cursors.At (s : Cursors) (tail out : Path) : Prop where
  rest : s.buf.drop s.src = tail
  written : s.buf.take s.dst = out.reverse
  behind : s.dst ≤ s.src
  inside : s.src ≤ s.buf.length
  short : out.length = s.dst

section Cursors

variable {s : Cursors} {buf : Buffer} {src out name rest : Path} {c : Char} {i fuel : ℕ}

section

variable (hdrop : buf.drop i = c :: rest)
include hdrop

theorem getElem?_of_drop : buf[i]? = some c := by
  rw [← head?_drop, hdrop]
  rfl

theorem drop_succ_of_drop : buf.drop (i + 1) = rest := by
  rw [← drop_drop, hdrop]
  rfl

theorem length_of_drop : i < buf.length := by
  by_contra hlong
  rw [drop_eq_nil_of_le (not_lt.mp hlong)] at hdrop
  exact cons_ne_nil _ _ hdrop.symm

end

theorem nul_ne_slash : NUL ≠ '/' := by decide

theorem nul_ne_dot : NUL ≠ '.' := by decide

theorem skipAt_eq (fuel : ℕ) : ∀ src i, src.length < fuel → buf.drop i = src ++ [NUL] →
      ∃ j, skipAt buf fuel i = some j ∧ i ≤ j ∧ buf.drop j = skipSlashes src ++ [NUL] := by
  induction fuel with
  | zero =>
    intro src i hlen
    cases hlen
  | succ fuel ih =>
    intro src i hlen hdrop
    rw [skipAt]
    cases src with
    | nil =>
      rw [getElem?_of_drop hdrop, bind_some, if_neg nul_ne_slash]
      exact ⟨i, rfl, le_refl i, hdrop⟩
    | cons c src =>
      rw [cons_append] at hdrop
      rw [getElem?_of_drop hdrop, bind_some]
      by_cases hc : c = '/'
      · rw [if_pos hc]
        obtain ⟨j, hskip, hle, hrest⟩ :=
          ih src (i + 1) (Nat.lt_of_succ_lt_succ hlen) (drop_succ_of_drop hdrop)
        refine ⟨j, hskip, by omega, ?_⟩
        rw [hrest, hc]
        simp [skipSlashes]
      · rw [if_neg hc]
        refine ⟨i, rfl, le_refl i, ?_⟩
        rw [hdrop]
        simp [skipSlashes, hc]

theorem Cursors.At.next (h : s.At (c :: rest) out) :
    Cursors.At { s with src := s.src + 1 } rest out :=
  ⟨drop_succ_of_drop h.rest, h.written, h.behind.trans (Nat.le_succ _), length_of_drop h.rest,
    h.short⟩

theorem Cursors.At.put (h : s.At rest out) (hbehind : s.dst < s.src) (c : Char) :
    ∃ t, s.put c = some t ∧ t.At rest (c :: out) ∧ t.src = s.src ∧ t.buf.length = s.buf.length := by
  have hroom : s.dst < s.buf.length := hbehind.trans_le h.inside
  have hlength : (s.buf.set s.dst c).length = s.buf.length := length_set
  have hwritten : (s.buf.set s.dst c).take (s.dst + 1) = (c :: out).reverse := by
    rw [take_add_one, take_set_of_le (le_refl _), h.written]
    simp [hroom]
  have hrest : (s.buf.set s.dst c).drop s.src = rest := (drop_set_of_lt hbehind).trans h.rest
  have hshort : (c :: out).length = s.dst + 1 := congrArg Nat.succ h.short
  exact ⟨_, if_pos hroom, ⟨hrest, hwritten, hbehind, hlength ▸ h.inside, hshort⟩, rfl, hlength⟩

theorem copyName_eq {after : Path} (hc : c = NUL ∨ c = '/') (name : Path) :
    ∀ (fuel : ℕ) (s : Cursors) (out : Path), name.length < fuel → (∀ d ∈ name, d ≠ NUL ∧ d ≠ '/') →
      s.At (name ++ c :: after) out →
      ∃ t, copyName fuel s = some (c, t) ∧ t.At after (name.reverse ++ out) ∧ t.dst < t.src ∧
        t.buf.length = s.buf.length := by
  have hstop : ¬ (c ≠ NUL ∧ c ≠ '/') := by
    intro h
    rcases hc with hnul | hslash
    · exact h.1 hnul
    · exact h.2 hslash
  induction name with
  | nil =>
    intro fuel s out hlen _ h
    cases fuel with
    | zero => cases hlen
    | succ fuel =>
      rw [nil_append] at h
      rw [copyName, getElem?_of_drop h.rest, bind_some, if_neg hstop]
      exact ⟨_, rfl, h.next, Nat.lt_succ_of_le h.behind, rfl⟩
  | cons d name ih =>
    intro fuel s out hlen hname h
    cases fuel with
    | zero => cases hlen
    | succ fuel =>
      rw [cons_append] at h
      rw [copyName, getElem?_of_drop h.rest, bind_some, if_pos (hname d mem_cons_self)]
      obtain ⟨t, hput, hat, _, hlength⟩ := h.next.put (Nat.lt_succ_of_le h.behind) d
      obtain ⟨u, hcopy, hu, hbehind, hulength⟩ := ih fuel t (d :: out) (Nat.lt_of_succ_lt_succ hlen)
          (fun e he => hname e (mem_cons_of_mem _ he)) hat
      rw [hput, bind_some]
      refine ⟨u, hcopy, ?_, hbehind, hulength.trans hlength⟩
      rw [reverse_cons, append_assoc]
      exact hu

theorem backUp_eq (out : Path) (hwritten : buf.take out.length = out.reverse) :
    ∃ dst, backUp buf out.length = some dst ∧ dst ≤ out.length ∧
      buf.take dst = (out.dropWhile (· ≠ '/')).reverse ∧
      (out.dropWhile (· ≠ '/')).length = dst := by
  induction out with
  | nil => exact ⟨0, rfl, le_refl 0, rfl, rfl⟩
  | cons c out ih =>
    rw [length_cons, reverse_cons] at hwritten
    have hlen := congrArg List.length hwritten
    rw [length_take, length_append, length_reverse, length_singleton] at hlen
    have hget : buf[out.length]? = some c := by
      have hlast : (buf.take (out.length + 1))[out.length]? = some c := by
        rw [hwritten, getElem?_append_right (by simp)]
        simp
      rwa [getElem?_take_of_lt (Nat.lt_succ_self _)] at hlast
    rw [length_cons, backUp, hget, bind_some]
    by_cases hc : c = '/'
    · rw [if_neg (not_not.mpr hc)]
      refine ⟨out.length + 1, rfl, le_refl _, ?_, ?_⟩
      · rw [hwritten, hc]
        simp
      · simp [hc]
    · rw [if_pos hc]
      have hprefix : buf.take out.length = out.reverse := by
        have htake : (buf.take (out.length + 1)).take out.length = out.reverse := by
          rw [hwritten]
          simp
        rwa [take_take, Nat.min_eq_left (Nat.le_succ _)] at htake
      obtain ⟨dst, hback, hle, htake, hdst⟩ := ih hprefix
      refine ⟨dst, hback, hle.trans (Nat.le_succ _), ?_, ?_⟩
      · rw [htake]
        simp [hc]
      · rw [← hdst]
        simp [hc]

theorem look_eq (hnul : NUL ∉ src) (h : s.At (src ++ [NUL]) out) :
    (src.takeWhile (· ≠ '/') = ['.'] → src.dropWhile (· ≠ '/') = [] →
      look s.buf s.src = some (.name (s.src + 1)) ∧ s.buf.drop (s.src + 1) = [NUL]) ∧
    (src.takeWhile (· ≠ '/') = ['.'] → src.dropWhile (· ≠ '/') ≠ [] →
      ∃ j, look s.buf s.src = some (.current j) ∧ s.src ≤ j ∧
        s.buf.drop j = skipSlashes (src.dropWhile (· ≠ '/')) ++ [NUL]) ∧
    (src.takeWhile (· ≠ '/') = ['.', '.'] → ∃ j, look s.buf s.src = some (.parent j) ∧ s.src ≤ j ∧
        s.buf.drop j = skipSlashes (src.dropWhile (· ≠ '/')) ++ [NUL]) ∧
    (src.takeWhile (· ≠ '/') ≠ ['.'] → src.takeWhile (· ≠ '/') ≠ ['.', '.'] →
      look s.buf s.src = some (.name s.src)) := by
  have hsrc : src.takeWhile (· ≠ '/') ++ src.dropWhile (· ≠ '/') = src :=
    takeWhile_append_dropWhile
  have hslash := noSlash_takeWhile src
  have hrest := rest_cases src
  have hlength := congrArg List.length h.rest
  generalize src.takeWhile (· ≠ '/') = name at *
  generalize src.dropWhile (· ≠ '/') = rest at *
  have hdrop := h.rest
  rw [← hsrc] at hdrop hnul hlength
  rw [length_drop] at hlength
  refine ⟨fun hname hlast => ?_, fun hname hmore => ?_, fun hname => ?_, fun hdot hdotdot => ?_⟩
  · rw [hname, hlast] at hdrop
    have hnext := drop_succ_of_drop hdrop
    unfold look
    rw [getElem?_of_drop hdrop, bind_some, if_neg (by simp), getElem?_of_drop hnext,
      bind_some, if_pos rfl]
    exact ⟨rfl, hnext⟩
  · obtain ⟨tail, htail⟩ := hrest.resolve_left hmore
    rw [hname, htail] at hdrop hlength
    have hnext := drop_succ_of_drop hdrop
    have hafter : s.buf.drop (s.src + 2) = tail ++ [NUL] := drop_succ_of_drop hnext
    obtain ⟨j, hskip, hle, hj⟩ := skipAt_eq s.buf.length tail (s.src + 2)
      (by simp at hlength; lia) hafter
    have hdropped : skipSlashes ('/' :: tail) = skipSlashes tail := by simp [skipSlashes]
    unfold look
    rw [getElem?_of_drop hdrop, bind_some, if_neg (by simp), getElem?_of_drop hnext,
      bind_some, if_neg (Ne.symm nul_ne_slash), if_pos rfl, hskip, htail, hdropped]
    exact ⟨j, rfl, by lia, hj⟩
  · rw [hname] at hdrop hlength
    have hnext := drop_succ_of_drop hdrop
    have hafter : s.buf.drop (s.src + 2) = rest ++ [NUL] := drop_succ_of_drop hnext
    unfold look
    rw [getElem?_of_drop hdrop, bind_some, if_neg (by simp), getElem?_of_drop hnext,
      bind_some, if_neg (Ne.symm nul_ne_dot), if_neg (by decide), if_neg (by simp)]
    obtain hlast | ⟨tail, htail⟩ := hrest
    · rw [hlast] at hafter ⊢
      rw [getElem?_of_drop hafter, bind_some, if_pos rfl]
      exact ⟨s.src + 2, rfl, by lia, hafter⟩
    · rw [htail] at hafter hlength ⊢
      have htail' : s.buf.drop (s.src + 3) = tail ++ [NUL] := drop_succ_of_drop hafter
      obtain ⟨j, hskip, hle, hj⟩ := skipAt_eq s.buf.length tail (s.src + 3)
        (by simp at hlength; lia) htail'
      have hdropped : skipSlashes ('/' :: tail) = skipSlashes tail := by simp [skipSlashes]
      rw [getElem?_of_drop hafter, bind_some, if_neg (Ne.symm nul_ne_slash), if_pos rfl,
        hskip, hdropped]
      exact ⟨j, rfl, by lia, hj⟩
  · have hchar : ∀ d ∈ name, d ≠ NUL ∧ d ≠ '/' := by
      intro d hd
      exact ⟨fun hd' => hnul (hd' ▸ mem_append_left _ hd), fun hd' => hslash (hd' ▸ hd)⟩
    cases name with
    | nil =>
      have hfirst : ∃ c tail, rest ++ [NUL] = c :: tail ∧ c ≠ '.' := by
        obtain hlast | ⟨tail, htail⟩ := hrest
        · exact ⟨NUL, [], by rw [hlast]; rfl, nul_ne_dot⟩
        · exact ⟨'/', tail ++ [NUL], by rw [htail]; rfl, by decide⟩
      obtain ⟨c, tail, hcons, hc⟩ := hfirst
      rw [nil_append, hcons] at hdrop
      unfold look
      rw [getElem?_of_drop hdrop, bind_some, if_pos hc]
    | cons c name =>
      by_cases hc : c = '.'
      · cases name with
        | nil => exact absurd (by rw [hc]) hdot
        | cons d name =>
          have hd := hchar d (by simp)
          have hnext := drop_succ_of_drop hdrop
          unfold look
          rw [getElem?_of_drop hdrop, bind_some, if_neg (not_not.mpr hc),
            getElem?_of_drop hnext, bind_some, if_neg hd.1, if_neg hd.2]
          by_cases hdot' : d = '.'
          · cases name with
            | nil => exact absurd (by rw [hc, hdot']) hdotdot
            | cons e name =>
              have he := hchar e (by simp)
              have hthird : s.buf.drop (s.src + 2) = e :: (name ++ rest ++ [NUL]) :=
                drop_succ_of_drop hnext
              rw [if_neg (not_not.mpr hdot'), getElem?_of_drop hthird, bind_some,
                if_neg he.1, if_neg he.2]
          · rw [if_pos hdot']
      · unfold look
        rw [getElem?_of_drop hdrop, bind_some, if_pos hc]

theorem Cursors.At.move {tail tail' : Path} {j : ℕ} (h : s.At tail out) (hj : s.src ≤ j)
    (hdrop : s.buf.drop j = tail' ++ [NUL]) :
    Cursors.At { s with src := j } (tail' ++ [NUL]) out := by
  have hin : j < s.buf.length := by
    by_contra hlong
    rw [drop_eq_nil_of_le (not_lt.mp hlong)] at hdrop
    simp at hdrop
  exact ⟨hdrop, h.written, h.behind.trans hj, hin.le, h.short⟩

theorem Cursors.At.length_le {tail : Path} (h : s.At tail out) : tail.length ≤ s.buf.length := by
  rw [← h.rest, length_drop]
  exact Nat.sub_le _ _

/-- The last name is copied up to the end. -/
theorem rewriteLoop_last (hchars : ∀ d ∈ name, d ≠ NUL ∧ d ≠ '/')
    (hlook : look s.buf s.src = some (.name i))
    (h : Cursors.At { s with src := i } (name ++ [NUL]) out) :
    ∃ t, rewriteLoop (fuel + 1) s = some (some t) ∧ t.At [] (name.reverse ++ out) ∧
      t.dst < t.src := by
  have hlength := h.length_le
  rw [length_append, length_singleton] at hlength
  obtain ⟨t, hcopy, ht, hbehind, _⟩ :=
    copyName_eq (.inl rfl) name s.buf.length _ out hlength hchars h
  rw [rewriteLoop, hlook, bind_some]
  simp only [hcopy, bind_some, if_neg nul_ne_slash]
  exact ⟨t, rfl, ht, hbehind⟩

/-- A name before a slash is copied with one slash, and the slashes after it are skipped. -/
theorem rewriteLoop_name (fuel : ℕ) (hchars : ∀ d ∈ name, d ≠ NUL ∧ d ≠ '/')
    (hlook : look s.buf s.src = some (.name s.src)) {tail : Path}
    (h : s.At (name ++ '/' :: (tail ++ [NUL])) out) :
    ∃ t, rewriteLoop (fuel + 1) s = rewriteLoop fuel t ∧
      t.At (skipSlashes tail ++ [NUL]) ('/' :: (name.reverse ++ out)) := by
  have hlength := h.length_le
  simp only [length_append, length_cons, length_nil] at hlength
  obtain ⟨t, hcopy, ht, hbehind, htlen⟩ :=
    copyName_eq (.inr rfl) name s.buf.length s out (by lia) hchars h
  obtain ⟨u, hput, hu, _, hulen⟩ := ht.put hbehind '/'
  obtain ⟨j, hskip, hj, hdrop⟩ := skipAt_eq u.buf.length tail u.src (by lia) hu.rest
  rw [rewriteLoop, hlook, bind_some]
  simp only [hcopy, bind_some, if_true, hput, hskip]
  exact ⟨_, rfl, hu.move hj hdrop⟩

/-- `..` takes the last name back, unless nothing has been written. -/
theorem rewriteLoop_parent (fuel : ℕ) {tail : Path} {j : ℕ}
    (hlook : look s.buf s.src = some (.parent j)) (h : Cursors.At { s with src := j } tail out) (hj : s.dst ≤ j) :
    (upOne out = none → rewriteLoop (fuel + 1) s = some none) ∧
      ∀ up, upOne out = some up →
        ∃ t, rewriteLoop (fuel + 1) s = rewriteLoop fuel t ∧ t.At tail up := by
  rw [rewriteLoop, hlook, bind_some]
  cases out with
  | nil =>
    have hzero : s.dst = 0 := h.short.symm
    simp only [hzero]
    exact ⟨fun _ => trivial, nofun⟩
  | cons c out =>
    have hdst : s.dst = out.length + 1 := h.short.symm
    have hwritten : s.buf.take out.length = out.reverse := by
      have htake : (s.buf.take (out.length + 1)).take out.length = out.reverse := by
        rw [← hdst, h.written]
        simp
      rwa [take_take, Nat.min_eq_left (Nat.le_succ _)] at htake
    obtain ⟨dst, hback, hdstle, htake, hlen⟩ := backUp_eq out hwritten
    simp only [hdst, hback, bind_some]
    refine ⟨nofun, fun up hup => ⟨_, rfl, ?_⟩⟩
    cases hup
    exact ⟨h.rest, htake, by lia, h.inside, hlen⟩

/-- From these cursors the loop does what the loop over names does. -/
def Rewrites (fuel : ℕ) (src out : Path) (s : Cursors) : Prop :=
  (normalizeLoop fuel src out = none → rewriteLoop fuel s = some none) ∧
    ∀ out', normalizeLoop fuel src out = some out' →
      ∃ t, rewriteLoop fuel s = some (some t) ∧ t.At [] out' ∧ t.dst < t.src

theorem rewriteLoop_eq (fuel : ℕ) : ∀ src out s, s.At (src ++ [NUL]) out → NUL ∉ src →
    src.length < fuel → Rewrites fuel src out s := by
  induction fuel with
  | zero =>
    intro src out s _ _ hlen
    cases hlen
  | succ fuel ih =>
    intro src out s h hnul hlen
    obtain ⟨hdotEnd, hdotMore, hup, hname⟩ := look_eq hnul h
    have hsrc : src.takeWhile (· ≠ '/') ++ src.dropWhile (· ≠ '/') = src :=
      takeWhile_append_dropWhile
    have hslash := noSlash_takeWhile src
    have hrest := rest_cases src
    rw [Rewrites, normalizeLoop]
    generalize src.takeWhile (· ≠ '/') = name at *
    generalize src.dropWhile (· ≠ '/') = rest at *
    have hnulRest : NUL ∉ skipSlashes rest := by
      intro hmem
      exact hnul (hsrc ▸ mem_append_right _ ((dropWhile_sublist _).mem hmem))
    have hle : (skipSlashes rest).length ≤ rest.length := (dropWhile_sublist _).length_le
    have hsum : name.length + rest.length = src.length := by
      rw [← hsrc, length_append]
    have hchars : ∀ d ∈ name, d ≠ NUL ∧ d ≠ '/' := by
      intro d hd
      exact ⟨fun hd' => hnul (hsrc ▸ hd' ▸ mem_append_left _ hd), fun hd' => hslash (hd' ▸ hd)⟩
    by_cases hdot : name = ['.']
    · rw [hdot, length_singleton] at hsum
      rw [if_pos hdot]
      by_cases hlast : rest = []
      · -- `.` at the end: nothing is left to copy
        obtain ⟨hlook, hdrop⟩ := hdotEnd hdot hlast
        obtain ⟨f, rfl⟩ : ∃ f, fuel = f + 1 := ⟨fuel - 1, by lia⟩
        have hend : normalizeLoop (f + 1) (skipSlashes []) out = some out := by
          rw [normalizeLoop]
          rfl
        rw [hlast, hend]
        refine ⟨fun hout => ?_, fun out' hout => ?_⟩ <;> cases hout
        have hat : Cursors.At { s with src := s.src + 1 } ([] ++ [NUL]) out :=
          h.move (Nat.le_succ _) hdrop
        exact rewriteLoop_last (by simp) hlook hat
      · obtain ⟨j, hlook, hj, hdrop⟩ := hdotMore hdot hlast
        rw [rewriteLoop, hlook, bind_some]
        exact ih _ out _ (h.move hj hdrop) hnulRest (by lia)
    · rw [if_neg hdot]
      by_cases hdotdot : name = ['.', '.']
      · have hshort : (skipSlashes rest).length < fuel := by
          rw [hdotdot] at hsum
          simp at hsum
          lia
        obtain ⟨j, hlook, hj, hdrop⟩ := hup hdotdot
        obtain ⟨hnone, hsome⟩ :=
          rewriteLoop_parent fuel hlook (h.move hj hdrop) (h.behind.trans hj)
        rw [if_pos hdotdot]
        cases hout : upOne out with
        | none =>
          refine ⟨fun _ => hnone hout, fun _ hup => ?_⟩
          cases hup
        | some up =>
          obtain ⟨t, ht, hat⟩ := hsome up hout
          rw [bind_some, ht]
          exact ih _ up t hat hnulRest hshort
      · rw [if_neg hdotdot]
        have hlook := hname hdot hdotdot
        obtain rfl | ⟨tail, rfl⟩ := hrest
        · rw [append_nil] at hsrc
          rw [← hsrc] at h
          rw [if_pos rfl]
          refine ⟨fun hout => ?_, fun out' hout => ?_⟩ <;> cases hout
          exact rewriteLoop_last hchars hlook h
        · have hdropped : skipSlashes ('/' :: tail) = skipSlashes tail := by simp [skipSlashes]
          rw [← hsrc, append_assoc, cons_append] at h
          obtain ⟨t, ht, hat⟩ := rewriteLoop_name fuel hchars hlook h
          rw [if_neg (cons_ne_nil _ _), ht]
          rw [hdropped] at hnulRest ⊢
          have hshort : (skipSlashes tail).length ≤ tail.length := (dropWhile_sublist _).length_le
          rw [length_cons] at hsum
          exact ih _ _ t hat hnulRest (by lia)

theorem cString_append (hout : NUL ∉ out) (rest : Path) : cString (out ++ NUL :: rest) = out := by
  have hall : ∀ c ∈ out, decide (c ≠ NUL) = true := by
    intro c hc
    have hne : c ≠ NUL := fun h => hout (h ▸ hc)
    simpa using hne
  unfold cString
  rw [takeWhile_append_of_pos hall]
  simp

theorem set_written (hwritten : buf.take i = out.reverse) (hi : i < buf.length) :
    buf.set i c = out.reverse ++ c :: buf.drop (i + 1) := by
  rw [set_eq_take_append_cons_drop, if_pos hi, hwritten]

theorem terminate_eq (h : s.At [] out) (hbehind : s.dst < s.src) (hnul : NUL ∉ out) :
    (out = [] → terminate s.buf s.dst = none) ∧
      (out ≠ [] → (terminate s.buf s.dst).map cString = some (stripSlash out)) := by
  have hroom : s.dst < s.buf.length := hbehind.trans_le h.inside
  have hrev : NUL ∉ out.reverse := fun hmem => hnul (mem_reverse.mp hmem)
  have hset := @set_written s.buf out NUL s.dst h.written hroom
  unfold terminate
  rw [if_pos hroom]
  constructor
  · intro hout
    have hdst : s.dst = 0 := by rw [← h.short, hout, length_nil]
    rw [hdst]
  · intro hout
    rcases hcase : out with _ | ⟨c, _ | ⟨d, rest⟩⟩
    · contradiction
    · have hdst : s.dst = 1 := by rw [← h.short, hcase]; rfl
      have hshort : stripSlash [c] = [c] := by
        unfold stripSlash
        split
        · rename_i heq
          nomatch congrArg List.length heq
        · rfl
      rw [hdst, hcase] at hset
      rw [hcase] at hrev
      rw [hdst, hshort]
      simp only [hset, map_some]
      exact congrArg some (cString_append hrev _)
    · have hdst : s.dst = rest.length + 2 := by rw [← h.short, hcase]; rfl
      rw [hdst, hcase] at hset
      rw [hcase] at hrev
      have hassoc : (c :: d :: rest).reverse ++ NUL :: s.buf.drop (rest.length + 2 + 1) =
          (d :: rest).reverse ++ c :: NUL :: s.buf.drop (rest.length + 2 + 1) := by
        simp
      have hget : (s.buf.set (rest.length + 2) NUL)[rest.length + 1]? = some c := by
        rw [hset, hassoc, getElem?_append_right (by simp)]
        simp
      rw [hdst]
      simp only [hget, map_some]
      by_cases hc : c = '/'
      · have hlast : (s.buf.set (rest.length + 2) NUL).set (rest.length + 1) NUL =
            (d :: rest).reverse ++ NUL :: NUL :: s.buf.drop (rest.length + 2 + 1) := by
          rw [hset, hassoc, set_append_right _ _ (by simp)]
          simp
        have hinner : NUL ∉ (d :: rest).reverse := by
          intro hmem
          refine hrev ?_
          rw [reverse_cons]
          exact mem_append_left _ hmem
        rw [if_pos hc, hlast, hc, stripSlash_slash (cons_ne_nil _ _), cString_append hinner]
      · have hhead : (c :: d :: rest).head? ≠ some '/' := fun h => hc (some.inj h)
        rw [if_neg hc, hset, stripSlash_other hhead, cString_append hrev]

theorem mem_normalizeLoop (fuel : ℕ) :
    ∀ (src out out' : Path), normalizeLoop fuel src out = some out' →
      ∀ d ∈ out', d ∈ src ∨ d ∈ out ∨ d = '/' := by
  induction fuel with
  | zero =>
    intro src out out' hloop
    cases hloop
  | succ fuel ih =>
    intro src out out' hloop d hd
    have hsrc : src.takeWhile (· ≠ '/') ++ src.dropWhile (· ≠ '/') = src :=
      takeWhile_append_dropWhile
    rw [normalizeLoop] at hloop
    generalize src.takeWhile (· ≠ '/') = name at *
    generalize src.dropWhile (· ≠ '/') = rest at *
    have hskip : d ∈ skipSlashes rest → d ∈ src := by
      intro hmem
      exact hsrc ▸ mem_append_right _ ((dropWhile_sublist _).mem hmem)
    have hname : d ∈ name → d ∈ src := by
      intro hmem
      exact hsrc ▸ mem_append_left _ hmem
    split at hloop
    · exact (ih _ _ _ hloop d hd).imp_left hskip
    · split at hloop
      · obtain ⟨up, hup, hrest⟩ := bind_eq_some_iff.mp hloop
        have hsub : ∀ e ∈ up, e ∈ out := by
          intro e he
          cases out with
          | nil => cases hup
          | cons c out =>
            rw [← some.inj hup] at he
            exact mem_cons_of_mem _ ((dropWhile_sublist _).mem he)
        rcases ih _ _ _ hrest d hd with hin | hout | hslash
        · exact .inl (hskip hin)
        · exact .inr (.inl (hsub d hout))
        · exact .inr (.inr hslash)
      · split at hloop
        · rw [← some.inj hloop] at hd
          rcases mem_append.mp hd with hin | hout
          · exact .inl (hname (mem_reverse.mp hin))
          · exact .inr (.inl hout)
        · rcases ih _ _ _ hloop d hd with hin | hout | hslash
          · exact .inl (hskip hin)
          · rcases mem_cons.mp hout with hslash | hmem
            · exact .inr (.inr hslash)
            · rcases mem_append.mp hmem with hin | hout
              · exact .inl (hname (mem_reverse.mp hin))
              · exact .inr (.inl hout)
          · exact .inr (.inr hslash)

theorem rewrite_eq (hnul : NUL ∉ src) :
    (normalizeLoop (src.length + 1) src [] = none → rewrite src = some none) ∧
      ∀ out, normalizeLoop (src.length + 1) src [] = some out →
        rewrite src = if out = [] then none else some (some (stripSlash out)) := by
  have hat : Cursors.At ⟨src ++ [NUL], 0, 0⟩ (src ++ [NUL]) [] :=
    ⟨rfl, rfl, le_refl 0, Nat.zero_le _, rfl⟩
  obtain ⟨hnone, hsome⟩ := rewriteLoop_eq (src.length + 1) src [] _ hat hnul (Nat.lt_succ_self _)
  unfold rewrite
  refine ⟨fun hloop => by rw [hnone hloop]; rfl, fun out hloop => ?_⟩
  obtain ⟨t, hrewrite, ht, hbehind⟩ := hsome out hloop
  have hout : NUL ∉ out := by
    intro hmem
    rcases mem_normalizeLoop _ _ _ _ hloop NUL hmem with hin | hold | hslash
    · exact hnul hin
    · cases hold
    · exact nul_ne_slash hslash
  obtain ⟨hempty, hfull⟩ := terminate_eq ht hbehind hout
  rw [hrewrite, bind_some]
  by_cases hnil : out = []
  · rw [if_pos hnil]
    simp only [hempty hnil, map_none]
  · have hmap := hfull hnil
    obtain ⟨buf, hbuf, hstring⟩ := map_eq_some_iff.mp hmap
    rw [if_neg hnil]
    simp only [hbuf, map_some, hstring]

end Cursors

/-- The loop in the buffer normalises the joined path component by component. -/
theorem normalizePath_eq {memory : Bool} {directory filename : Path} {result : Option Path}
    (hnul : NUL ∉ joined directory filename)
    (hresult : normalizePath memory directory filename = some result) :
    dfsNormalizePath (some directory) memory filename = result := by
  have hjoined : absolute (some directory) filename = some (joined directory filename) := by
    unfold absolute joined
    split <;> rfl
  unfold normalizePath at hresult
  rw [dfsNormalizePath, hjoined, bind_some]
  cases memory with
  | false => exact some.inj hresult
  | true =>
    rw [if_pos rfl] at hresult ⊢
    obtain ⟨hnone, hsome⟩ := rewrite_eq hnul
    cases hloop : normalizeLoop ((joined directory filename).length + 1)
        (joined directory filename) [] with
    | none =>
      rw [hnone hloop] at hresult
      exact some.inj hresult
    | some out =>
      rw [hsome out hloop] at hresult
      split at hresult
      · cases hresult
      · exact some.inj hresult

theorem normalizePath_inner :
    dfsNormalizePath (some ['/', 'a']) true ['b', '/', '.', '.', '/', 'c'] =
      some ['/', 'a', '/', 'c'] :=
  normalizePath_eq (by decide) (by decide)

/-- Only the buffer is accessed; a path that is returned is the canonical one, and it is
returned again when it is normalised; `RT_NULL` says that the path leaves the root or that there
is no memory. -/
structure NormalizesRight (memory : Bool) (directory filename : Path) : Prop where
  inside : normalizePath memory directory filename ≠ none
  canonical : ∀ path, normalizePath memory directory filename = some (some path) →
    path = render (settle ((joined directory filename).splitOn '/')) ∧ Normalised path
  again : ∀ path, normalizePath memory directory filename = some (some path) →
    ∀ other, normalizePath true other path = some (some path)
  refused : normalizePath memory directory filename = some none →
    memory = false ∨ lowest ((joined directory filename).splitOn '/') < 0

section Results

variable {tail : Path} {place : Place}

theorem lowest_absolute (tail : Path) :
    lowest (('/' :: tail).splitOn '/') = lowest (tail.splitOn '/') := by
  have hsplit : ('/' :: tail).splitOn '/' = [] :: tail.splitOn '/' :=
    @splitOn_name_slash [] tail not_mem_nil
  have hle := lowest_nonpos (tail.splitOn '/')
  rw [hsplit, lowest]
  simp [height, hle]

theorem settle_absolute (tail : Path) :
    settle (('/' :: tail).splitOn '/') = settle (tail.splitOn '/') := by
  have hsplit : ('/' :: tail).splitOn '/' = [] :: tail.splitOn '/' :=
    @splitOn_name_slash [] tail not_mem_nil
  rw [hsplit]
  rfl

theorem normalizeLoop_slash (tail : Path) : normalizeLoop (tail.length + 2) ('/' :: tail) [] =
      normalizeLoop (tail.length + 1) (skipSlashes tail) ['/'] := by
  rw [normalizeLoop]
  simp [skipSlashes]

theorem stripSlash_head {out : Path} (hout : out ≠ []) :
    (stripSlash out).head? = out.reverse.head? := by
  unfold stripSlash
  split
  · rename_i c rest
    have hne : (c :: rest).reverse ≠ [] := by simp
    have hrev : ('/' :: c :: rest).reverse = (c :: rest).reverse ++ ['/'] := reverse_cons
    rw [hrev, head?_append_of_ne_nil _ hne]
  · rfl

theorem unrooted_head {out : Path} (hends : Ends out place) (hrooted : place.rooted = false)
    (hst : ∀ name ∈ place.st, ProperName name) (hout : out ≠ []) :
    (stripSlash out).head? ≠ some '/' := by
  have hnil : ([] : Path).head? ≠ some '/' := (some_ne_none _).symm
  rw [stripSlash_head hout]
  rcases hends with hwhole | ⟨name, st, hcons, hname⟩
  · have hbelow : out.reverse = below place.st ++ [] := by
      rw [hwhole, reverse_reverse, append_nil, Place.written, hrooted]
      rfl
    rw [hbelow]
    exact below_head_ne hst hnil
  · have hbelow : out.reverse = below st ++ name := by
      rw [hname, reverse_append, reverse_reverse, reverse_reverse, Place.written,
        hrooted]
      rfl
    rw [hcons] at hst
    have hhead := (hst name mem_cons_self).head_ne []
    rw [append_nil] at hhead
    rw [hbelow]
    exact below_head_ne (fun n hn => hst n (mem_cons_of_mem _ hn)) hhead

theorem rewrite_cases (htail : NUL ∉ '/' :: tail) :
    (0 ≤ lowest (('/' :: tail).splitOn '/') → ∃ st, (∀ name ∈ st, ProperName name) ∧
        st = settle (('/' :: tail).splitOn '/') ∧ rewrite ('/' :: tail) = some (some (render st))) ∧
    (lowest (('/' :: tail).splitOn '/') = -1 →
      ∀ path, rewrite ('/' :: tail) = some path → ∃ p, path = some p ∧ p.head? ≠ some '/') ∧
    (lowest (('/' :: tail).splitOn '/') < -1 → rewrite ('/' :: tail) = some none) := by
  have hskip : walk ((skipSlashes tail).splitOn '/') ⟨true, []⟩ =
      walk (tail.splitOn '/') ⟨true, []⟩ := walk_skip tail _
  have hlen : (skipSlashes tail).length < tail.length + 1 :=
    Nat.lt_succ_of_le (dropWhile_sublist _).length_le
  obtain ⟨hloopNone, hloopSome⟩ := normalizeLoop_walk (tail.length + 1) (skipSlashes tail)
    ⟨true, []⟩ hlen (skipSlashes_head tail) (nofun)
  obtain ⟨hrewriteNone, hrewriteSome⟩ := rewrite_eq htail
  obtain ⟨hwalkNone, hwalkSome⟩ := walk_lowest (tail.splitOn '/') ⟨true, []⟩
  rw [hskip] at hloopNone hloopSome
  rw [length_cons, normalizeLoop_slash] at hrewriteNone hrewriteSome
  have hroot : (Place.mk true []).written.reverse = ['/'] := rfl
  have hdepth : (Place.mk true []).depth = 0 := rfl
  rw [hroot] at hloopNone hloopSome
  rw [hdepth, zero_add] at hwalkNone hwalkSome
  rw [lowest_absolute, settle_absolute]
  refine ⟨fun hlow => ?_, fun hlow path hpath => ?_, fun hlow => ?_⟩
  · cases hwalk : walk (tail.splitOn '/') ⟨true, []⟩ with
    | none => exact absurd (hwalkNone.mp hwalk) (by omega)
    | some place =>
      obtain ⟨hproper, out, hloop, hends⟩ := hloopSome place hwalk
      have hrooted : place.rooted = true := (hwalkSome place hwalk).mpr ⟨rfl, hlow⟩
      have hplace : place = ⟨true, place.st⟩ := by rw [← hrooted]
      rw [hplace] at hwalk hends
      have hsettle := foldl_settleName _ [] (resolveNames_of_walk _ [] hwalk)
      have hout : out ≠ [] := by
        intro hnil
        rw [hnil] at hends
        rcases hends with hwhole | ⟨name, st, hcons, hname⟩
        · exact directory_ne_nil place.st (reverse_eq_nil_iff.mp hwhole.symm)
        · have hne := (hproper name (by rw [hcons]; exact mem_cons_self)).ne_nil
          have happend := append_eq_nil_iff.mp hname.symm
          exact hne (reverse_eq_nil_iff.mp happend.1)
      refine ⟨place.st, hproper, hsettle.symm, ?_⟩
      rw [hrewriteSome out hloop, if_neg hout, stripSlash_ends hproper hends]
  · cases hwalk : walk (tail.splitOn '/') ⟨true, []⟩ with
    | none => exact absurd (hwalkNone.mp hwalk) (by omega)
    | some place =>
      obtain ⟨hproper, out, hloop, hends⟩ := hloopSome place hwalk
      have hrooted : place.rooted = false := by
        rw [← Bool.not_eq_true, hwalkSome place hwalk]
        intro h
        omega
      rw [hrewriteSome out hloop] at hpath
      split at hpath
      · cases hpath
      · rw [← some.inj hpath]
        exact ⟨_, rfl, unrooted_head hends hrooted hproper ‹_›⟩
  · exact hrewriteNone (hloopNone (hwalkNone.mpr hlow))

end Results

theorem normalizePath_render {st : List Path} (hst : ∀ name ∈ st, ProperName name)
    (hnul : NUL ∉ render st) (other : Path) :
    normalizePath true other (render st) = some (some (render st)) := by
  obtain ⟨tail, htail⟩ := render_head st
  have hjoined : joined other (render st) = '/' :: tail := by
    rw [htail]
    rfl
  have hresolve : resolveNames (tail.splitOn '/') [] = some st := by
    have hself := resolve_render hst
    rwa [htail] at hself
  have hwalk := walk_of_resolveNames _ [] hresolve
  have hlow : 0 ≤ lowest (('/' :: tail).splitOn '/') := by
    have hrooted := ((walk_lowest (tail.splitOn '/') ⟨true, []⟩).2 _ hwalk).mp rfl
    rw [lowest_absolute]
    simpa [Place.depth] using hrooted.2
  rw [htail] at hnul
  obtain ⟨st', _, hst', hrewrite⟩ := (rewrite_cases hnul).1 hlow
  have hsame : st' = st := by
    rw [hst', settle_absolute]
    exact foldl_settleName _ [] hresolve
  rw [normalizePath, if_pos rfl, hjoined, hrewrite, hsame]

theorem nul_notin_rewrite {src path : Path} (hnul : NUL ∉ src)
    (hpath : rewrite src = some (some path)) : NUL ∉ path := by
  obtain ⟨hnone, hsome⟩ := rewrite_eq hnul
  cases hloop : normalizeLoop (src.length + 1) src [] with
  | none =>
    rw [hnone hloop] at hpath
    cases hpath
  | some out =>
    rw [hsome out hloop] at hpath
    split at hpath
    · cases hpath
    · rw [← some.inj (some.inj hpath)]
      have hsub : ∀ c ∈ stripSlash out, c ∈ out := by
        intro c hc
        unfold stripSlash at hc
        split at hc
        · exact mem_cons_of_mem _ (mem_reverse.mp hc)
        · exact mem_reverse.mp hc
      intro hmem
      rcases mem_normalizeLoop _ _ _ _ hloop NUL (hsub NUL hmem) with hin | hold | hslash
      · exact hnul hin
      · cases hold
      · exact nul_ne_slash hslash

/-- A path is normalised as it should be unless its names lead one directory, and no further,
above the root. -/
theorem normalizesRight_iff (memory : Bool) (directory filename : Path)
    (hdirectory : directory.head? = some '/') (hnulDirectory : NUL ∉ directory)
    (hnulFilename : NUL ∉ filename) : NormalizesRight memory directory filename ↔
      (memory = true → lowest ((joined directory filename).splitOn '/') ≠ -1) := by
  have habsolute : ∃ tail, joined directory filename = '/' :: tail := by
    unfold joined
    split
    · exact ⟨_, (cons_head?_tail ‹_›).symm⟩
    · rw [← cons_head?_tail hdirectory]
      exact ⟨_, rfl⟩
  have hnul : NUL ∉ joined directory filename := by
    unfold joined
    split
    · exact hnulFilename
    · simp only [mem_append, mem_cons, not_or]
      exact ⟨hnulDirectory, nul_ne_slash, hnulFilename⟩
  cases memory with
  | false =>
    have hnull : normalizePath false directory filename = some none := rfl
    refine iff_of_true ⟨?_, ?_, ?_, fun _ => .inl rfl⟩ (nofun)
    · rw [hnull]
      exact some_ne_none _
    · intro path hpath
      rw [hnull] at hpath
      cases hpath
    · intro path hpath
      rw [hnull] at hpath
      cases hpath
  | true =>
    have hrun : normalizePath true directory filename = rewrite (joined directory filename) := rfl
    obtain ⟨tail, htail⟩ := habsolute
    obtain ⟨hrooted, hone, htwo⟩ := rewrite_cases (htail ▸ hnul)
    rw [← htail] at hrooted hone htwo
    constructor
    · intro hright _ hlow
      cases hresult : rewrite (joined directory filename) with
      | none => exact hright.inside (hrun.trans hresult)
      | some path =>
        obtain ⟨p, hp, hhead⟩ := hone hlow path hresult
        have hnormal := (hright.canonical p (by rw [hrun, hresult, hp])).2
        obtain ⟨st, _, hst⟩ := hnormal
        obtain ⟨src, hsrc⟩ := render_head st
        rw [hst, hsrc] at hhead
        exact hhead rfl
    · intro hlow
      by_cases hzero : 0 ≤ lowest ((joined directory filename).splitOn '/')
      · obtain ⟨st, hproper, hsettle, hresult⟩ := hrooted hzero
        have hpath : ∀ path, normalizePath true directory filename = some (some path) →
            path = render st := by
          intro path hpath
          rw [hrun, hresult] at hpath
          exact (some.inj (some.inj hpath)).symm
        refine ⟨?_, fun path h => ?_, fun path h other => ?_, fun h => ?_⟩
        · rw [hrun, hresult]
          exact some_ne_none _
        · rw [hpath path h, ← hsettle]
          exact ⟨rfl, st, hproper, rfl⟩
        · rw [hpath path h]
          exact normalizePath_render hproper (nul_notin_rewrite hnul hresult) other
        · rw [hrun, hresult] at h
          nomatch some.inj h
      · have hnone : normalizePath true directory filename = some none := by
          have hne := hlow rfl
          rw [hrun]
          exact htwo (by omega)
        have hnever : ∀ path, normalizePath true directory filename ≠ some (some path) := by
          intro path hpath
          rw [hnone] at hpath
          cases hpath
        refine ⟨?_, fun path h => absurd h (hnever path), fun path h => absurd h (hnever path),
          fun _ => .inr (not_le.mp hzero)⟩
        rw [hnone]
        exact some_ne_none _

theorem normalizesRight_inner : NormalizesRight true ['/', 'a'] ['.', '.', '/', 'b', '/'] ↔
      (true = true → lowest ((joined ['/', 'a'] ['.', '.', '/', 'b', '/']).splitOn '/') ≠ -1) :=
  normalizesRight_iff true ['/', 'a'] ['.', '.', '/', 'b', '/'] rfl (by decide) (by decide)

/-- `..` at the root removes its slash. -/
theorem normalizePath_above_root :
    (¬ ∀ (memory : Bool) (directory filename : Path), directory.head? = some '/' →
        NUL ∉ directory → NUL ∉ filename → NormalizesRight memory directory filename) ∧
      normalizePath true ['/'] ['.', '.', '/', 'a'] = some (some ['a']) ∧
      normalizePath true ['/'] ['.', '.'] = none := by
  refine ⟨fun h => ?_, by decide, by decide⟩
  exact (h true ['/'] ['.', '.'] rfl (by decide) (by decide)).inside (by decide)

end RtThread.Dfs
