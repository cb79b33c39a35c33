import Mathlib.Data.List.DropRight
import Mathlib.Data.List.TakeWhile
import Mathlib.Tactic

/-!
# The arguments of a msh command

`msh_split` cuts a command line in place: it stores a pointer to each argument
and writes the zeros behind them, that behind a word only when the blanks after
it are stripped.
-/

namespace RtThread.Msh

open List Option

abbrev Text := List Char

def RT_FINSH_ARG_MAX : ℕ := 10

def NUL : Char := Char.ofNat 0

def isBlank (c : Char) : Bool := c = ' ' || c = '\t'

/-- The characters up to the quote that ends a string, and what is behind it; `before` is the
character before. -/
def quoted (before : Char) : Text → Text × Text
  | [] => ([], [])
  | c :: rest =>
    if c = '"' ∧ before ≠ '\\' then ([], rest)
    else (c :: (quoted c rest).1, (quoted c rest).2)

def word (line : Text) : Text := line.takeWhile (! isBlank ·)

def afterWord (line : Text) : Text := line.dropWhile (! isBlank ·)

def skipBlanks (line : Text) : Text := line.dropWhile (isBlank ·)

theorem quoted_length (line : Text) : ∀ before, (quoted before line).2.length ≤ line.length := by
  induction line with
  | nil =>
    intro before
    exact le_refl 0
  | cons c rest ih =>
    intro before
    rw [quoted]
    split
    · exact Nat.le_succ _
    · exact (ih c).trans (Nat.le_succ _)

theorem skipBlanks_length (line : Text) : (skipBlanks line).length ≤ line.length :=
  (dropWhile_sublist _).length_le

theorem skipBlanks_head {line rest : Text} {c : Char} (h : skipBlanks line = c :: rest) :
    isBlank c = false := by
  have hhead := head?_dropWhile_not (isBlank ·) line
  unfold skipBlanks at h
  rw [h] at hhead
  simpa using hhead

theorem afterWord_length {rest : Text} {c : Char} (hc : isBlank c = false) :
    (afterWord (c :: rest)).length < (c :: rest).length := by
  have hdrop : afterWord (c :: rest) = rest.dropWhile (! isBlank ·) := by
    unfold afterWord
    simp [hc]
  rw [hdrop]
  exact Nat.lt_succ_of_le (dropWhile_sublist _).length_le

def arguments (line : Text) : List Text :=
  match _h : skipBlanks line with
  | [] => []
  | c :: rest =>
    if c = '"' then (quoted '"' rest).1 :: arguments (quoted '"' rest).2
    else word (c :: rest) :: arguments (afterWord (c :: rest))
termination_by line.length
decreasing_by
  · have hskip := skipBlanks_length line
    have hquoted := quoted_length rest '"'
    rw [_h, length_cons] at hskip
    omega
  · have hskip := skipBlanks_length line
    have hword := @afterWord_length rest c (skipBlanks_head _h)
    rw [_h] at hskip
    omega

/-- `while ((*ptr == ' ' || *ptr == '\t') && position < length)` -/
def stripBlanks (length : ℕ) : ℕ → Text → ℕ → Option (Text × ℕ)
  | 0, _, _ => none
  | fuel + 1, buf, position =>
    buf[position]?.bind fun c =>
      if isBlank c ∧ position < length then
        stripBlanks length fuel (buf.set position NUL) (position + 1)
      else some (buf, position)

/-- `while (*ptr != '"' && position < length)` -/
def skipString (length : ℕ) (buf : Text) : ℕ → ℕ → Option ℕ
  | 0, _ => none
  | fuel + 1, position =>
    buf[position]?.bind fun c =>
      if c ≠ '"' ∧ position < length then
        if c = '\\' then
          buf[position + 1]?.bind fun d =>
            skipString length buf fuel (if d = '"' then position + 2 else position + 1)
        else skipString length buf fuel (position + 1)
      else some position

/-- `while ((*ptr != ' ' && *ptr != '\t') && position < length)` -/
def skipWord (length : ℕ) (buf : Text) : ℕ → ℕ → Option ℕ
  | 0, _ => none
  | fuel + 1, position =>
    buf[position]?.bind fun c =>
      if ¬ isBlank c ∧ position < length then skipWord length buf fuel (position + 1)
      else some position

/-- The body of the loop behind the blanks: the pointer to an argument is stored and the argument
is skipped; `next` goes round again. -/
def splitArgument (length : ℕ) (next : Text → ℕ → List ℕ → Option (Text × List ℕ)) (buf : Text)
    (position : ℕ) (argv : List ℕ) : Option (Text × List ℕ) :=
  if position ≥ length then some (buf, argv)
  else
    buf[position]?.bind fun c =>
      if c = '"' then
        (skipString length buf buf.length (position + 1)).bind fun stop =>
          if stop ≥ length then some (buf, argv ++ [position + 1])
          else next (buf.set stop NUL) (stop + 1) (argv ++ [position + 1])
      else
        (skipWord length buf buf.length position).bind fun stop =>
          if stop ≥ length then some (buf, argv ++ [position])
          else next buf stop (argv ++ [position])

/-- The loop; `ptr` is `cmd + position` throughout.  No result is a read behind the line. -/
def splitLoop (length : ℕ) : ℕ → Text → ℕ → List ℕ → Option (Text × List ℕ)
  | 0, _, _, _ => none
  | fuel + 1, buf, position, argv =>
    if position < length then
      (stripBlanks length buf.length buf position).bind fun (buf, position) =>
        splitArgument length (splitLoop length fuel) buf position argv
    else some (buf, argv)

def mshSplit (cmd : Text) : Option (Text × List ℕ) :=
  splitLoop cmd.length (cmd.length + 1) (cmd ++ [NUL]) 0 []

def stringAt (buf : Text) (pointer : ℕ) : Text := (buf.drop pointer).takeWhile (· ≠ NUL)

/-- The arguments are split off and their table is large enough. -/
def SplitsRight (cmd : Text) : Prop :=
  ∃ buf argv, mshSplit cmd = some (buf, argv) ∧ argv.length ≤ RT_FINSH_ARG_MAX ∧
    argv.map (stringAt buf) = arguments cmd

section Steps

variable {done rest tail line : Text} {c : Char} {length fuel : ℕ}

theorem arguments_nil (h : skipBlanks line = []) : arguments line = [] := by
  rw [arguments]
  split
  · rfl
  · rename_i c rest hcons
    rw [h] at hcons
    exact absurd hcons.symm (cons_ne_nil _ _)

theorem arguments_cons (h : skipBlanks line = c :: rest) : arguments line =
      if c = '"' then (quoted '"' rest).1 :: arguments (quoted '"' rest).2
      else word (c :: rest) :: arguments (afterWord (c :: rest)) := by
  rw [arguments]
  split
  · rename_i hnil
    rw [h] at hnil
    cases hnil
  · rename_i c' rest' hcons
    rw [h, cons.injEq] at hcons
    rw [hcons.1, hcons.2]

theorem getElem?_done (done : Text) (c : Char) (rest : Text) :
    (done ++ c :: rest)[done.length]? = some c := by
  rw [getElem?_append_right (le_refl _), Nat.sub_self]
  rfl

theorem set_done (done : Text) (c d : Char) (rest : Text) :
    (done ++ c :: rest).set done.length d = done ++ d :: rest := by
  rw [set_append_right _ _ (le_refl _), Nat.sub_self]
  rfl

theorem nul_not_blank : isBlank NUL = false := by decide

theorem stringAt_eq {s : Text} (hs : NUL ∉ s) (done rest : Text) :
    stringAt (done ++ (s ++ NUL :: rest)) done.length = s := by
  have hall : ∀ c ∈ s, decide (c ≠ NUL) = true := by
    intro c hc
    have hne : c ≠ NUL := fun h => hs (h ▸ hc)
    simpa using hne
  unfold stringAt
  rw [drop_left, takeWhile_append_of_pos hall]
  simp

theorem stripBlanks_eq (fuel : ℕ) :
    ∀ done rest : Text, rest.length < fuel → length = done.length + rest.length →
      stripBlanks length fuel (done ++ (rest ++ [NUL])) done.length =
        some (done ++ List.replicate (rest.length - (skipBlanks rest).length) NUL ++
            (skipBlanks rest ++ [NUL]),
          done.length + (rest.length - (skipBlanks rest).length)) := by
  induction fuel with
  | zero =>
    intro done rest hlen
    cases hlen
  | succ fuel ih =>
    intro done rest hlen hlength
    cases rest with
    | nil =>
      have hskip : skipBlanks [] = [] := rfl
      rw [nil_append, stripBlanks, getElem?_done, bind_some, nul_not_blank,
        if_neg (fun h => Bool.false_ne_true h.1), hskip]
      simp
    | cons c rest =>
      rw [cons_append, stripBlanks, getElem?_done, bind_some]
      cases hc : isBlank c with
      | false =>
        have hskip : skipBlanks (c :: rest) = c :: rest := by
          unfold skipBlanks
          simp [hc]
        rw [if_neg (fun h => Bool.false_ne_true h.1), hskip]
        simp
      | true =>
        have hskip : skipBlanks (c :: rest) = skipBlanks rest := by
          unfold skipBlanks
          simp [hc]
        have hle := skipBlanks_length rest
        have hin : done.length < length := by
          rw [hlength, length_cons]
          lia
        have hcount : (c :: rest).length - (skipBlanks rest).length =
            (rest.length - (skipBlanks rest).length) + 1 := by
          rw [length_cons]
          lia
        have hnext := ih (done ++ [NUL]) rest (Nat.lt_of_succ_lt_succ hlen) (by
          rw [hlength]
          simp
          lia)
        have hassoc : done ++ NUL :: (rest ++ [NUL]) = (done ++ [NUL]) ++ (rest ++ [NUL]) := by
          simp
        rw [if_pos ⟨rfl, hin⟩, set_done, hassoc, hskip, hcount]
        rw [length_append, length_singleton] at hnext
        rw [hnext, replicate_succ]
        simp
        lia

theorem skipWord_eq (fuel : ℕ) :
    ∀ done rest : Text, rest.length < fuel → length = done.length + rest.length →
      skipWord length (done ++ (rest ++ [NUL])) fuel done.length =
        some (done.length + (word rest).length) := by
  induction fuel with
  | zero =>
    intro done rest hlen
    cases hlen
  | succ fuel ih =>
    intro done rest hlen hlength
    cases rest with
    | nil =>
      have hout : ¬ done.length < length := by
        rw [hlength]
        simp
      rw [nil_append, skipWord, getElem?_done, bind_some, if_neg (fun h => hout h.2)]
      rfl
    | cons c rest =>
      rw [cons_append, skipWord, getElem?_done, bind_some]
      cases hc : isBlank c with
      | true =>
        have hword : word (c :: rest) = [] := by
          unfold word
          simp [hc]
        rw [if_neg (fun h => h.1 rfl), hword]
        rfl
      | false =>
        have hword : word (c :: rest) = c :: word rest := by
          unfold word
          simp [hc]
        have hin : done.length < length := by
          rw [hlength, length_cons]
          omega
        have hnext := ih (done ++ [c]) rest (Nat.lt_of_succ_lt_succ hlen) (by
          rw [hlength]
          simp
          omega)
        have hassoc : done ++ c :: (rest ++ [NUL]) = (done ++ [c]) ++ (rest ++ [NUL]) := by
          simp
        rw [length_append, length_singleton] at hnext
        rw [if_pos ⟨Bool.false_ne_true, hin⟩, hassoc, hnext, hword, length_cons]
        congr 1
        omega

theorem skipString_eq (fuel : ℕ) : ∀ (done rest : Text) (before : Char), rest.length < fuel →
      length = done.length + rest.length → (rest.head? = some '"' → before ≠ '\\') →
      skipString length (done ++ (rest ++ [NUL])) fuel done.length =
        some (done.length + (quoted before rest).1.length) := by
  induction fuel with
  | zero =>
    intro done rest before hlen
    cases hlen
  | succ fuel ih =>
    intro done rest before hlen hlength hbefore
    cases rest with
    | nil =>
      have hout : ¬ done.length < length := by
        rw [hlength]
        simp
      rw [nil_append, skipString, getElem?_done, bind_some, if_neg (fun h => hout h.2)]
      rfl
    | cons c rest =>
      rw [cons_append, skipString, getElem?_done, bind_some]
      by_cases hc : c = '"'
      · have hends : quoted before (c :: rest) = ([], rest) :=
          if_pos ⟨hc, hbefore (congrArg some hc)⟩
        rw [if_neg (fun h => h.1 hc), hends]
        rfl
      · have hgoes : quoted before (c :: rest) =
            (c :: (quoted c rest).1, (quoted c rest).2) := if_neg (fun h => hc h.1)
        have hin : done.length < length := by
          rw [hlength, length_cons]
          lia
        have hassoc : done ++ c :: (rest ++ [NUL]) = (done ++ [c]) ++ (rest ++ [NUL]) := by
          simp
        have hlength' : length = (done ++ [c]).length + rest.length := by
          rw [hlength]
          simp
          lia
        have hshort := Nat.lt_of_succ_lt_succ hlen
        have hplus : (done ++ [c]).length = done.length + 1 := by simp
        rw [if_pos ⟨hc, hin⟩, hgoes, length_cons, hassoc]
        by_cases hback : c = '\\'
        · rw [if_pos hback]
          cases rest with
          | nil =>
            have hnext := ih (done ++ [c]) [] c hshort hlength'
              (fun h => absurd h.symm (some_ne_none _))
            have hget : (done ++ [c] ++ ([] ++ [NUL]))[done.length + 1]? = some NUL := by
              rw [← hplus]
              exact getElem?_done _ _ _
            rw [hplus] at hnext
            rw [hget, bind_some, if_neg (by decide), hnext]
            rfl
          | cons d rest =>
            have hget : (done ++ [c] ++ (d :: rest ++ [NUL]))[done.length + 1]? = some d := by
              rw [← hplus]
              exact getElem?_done _ _ _
            rw [hget, bind_some]
            by_cases hd : d = '"'
            · -- both characters belong to the string
              have hpair : quoted c (d :: rest) = (d :: (quoted d rest).1, (quoted d rest).2) :=
                if_neg (fun h => h.2 hback)
              have hnext := ih (done ++ [c] ++ [d]) rest d
                (Nat.lt_of_succ_lt hshort) (by
                  rw [hlength']
                  simp
                  lia) (fun _ => hd ▸ by decide)
              have hassoc' : done ++ [c] ++ (d :: rest ++ [NUL]) =
                  (done ++ [c] ++ [d]) ++ (rest ++ [NUL]) := by
                simp
              have hplus' : (done ++ [c] ++ [d]).length = done.length + 2 := by simp
              rw [hplus'] at hnext
              rw [if_pos hd, hassoc', hnext, hpair, length_cons]
              congr 1
              lia
            · have hnext := ih (done ++ [c]) (d :: rest) c hshort hlength'
                (fun h => absurd (some.inj h) hd)
              rw [hplus] at hnext
              rw [if_neg hd, hnext]
              congr 1
              lia
        · have hnext := ih (done ++ [c]) rest c hshort hlength' (fun _ => hback)
          rw [hplus] at hnext
          rw [if_neg hback, hnext]
          congr 1
          lia

theorem quoted_cases (line : Text) : ∀ before,
    line = (quoted before line).1 ++ '"' :: (quoted before line).2 ∨
      line = (quoted before line).1 ∧ (quoted before line).2 = [] := by
  induction line with
  | nil =>
    intro before
    exact .inr ⟨rfl, rfl⟩
  | cons c rest ih =>
    intro before
    rw [quoted]
    split
    · rename_i hends
      left
      rw [hends.1]
      rfl
    · rcases ih c with hclosed | ⟨hopen, hnil⟩
      · left
        exact congrArg (List.cons c) hclosed
      · right
        exact ⟨congrArg (List.cons c) hopen, hnil⟩

/-- What the loop makes of the rest of a line: `done` stays, a blank at its start has become a
zero, and the new pointers point to the arguments. -/
structure SplitRest (done rest : Text) (argv : List ℕ) (buf : Text) (argv' : List ℕ) : Prop where
  buffer : ∃ tail, buf = done ++ tail ∧ (rest.head?.all isBlank = true → tail.head? = some NUL)
  pointers : ∃ new, argv' = argv ++ new ∧ new.map (stringAt buf) = arguments rest

theorem SplitRest.done_nil (done : Text) (argv : List ℕ) :
    SplitRest done [] argv (done ++ ([] ++ [NUL])) argv :=
  ⟨⟨[NUL], rfl, fun _ => rfl⟩, [], (append_nil _).symm, (arguments_nil rfl).symm⟩

theorem SplitRest.string {s more buf : Text} {argv argv' : List ℕ} (hs : NUL ∉ s)
    (hquoted : quoted '"' line = (s, more))
    (h : SplitRest (done ++ '"' :: s ++ [NUL]) more (argv ++ [done.length + 1]) buf argv') :
    SplitRest done ('"' :: line) argv buf argv' := by
  obtain ⟨⟨tail, hbuf, -⟩, new, hargv, hnew⟩ := h
  have hskip : skipBlanks ('"' :: line) = '"' :: line := rfl
  have hstring : stringAt buf (done.length + 1) = s := by
    have hat := stringAt_eq hs (done ++ ['"']) tail
    have hbuf' : buf = done ++ ['"'] ++ (s ++ NUL :: tail) := by
      rw [hbuf]
      simp
    rwa [← hbuf', length_append, length_singleton] at hat
  constructor
  · refine ⟨'"' :: s ++ [NUL] ++ tail, by rw [hbuf]; simp, fun hblank => ?_⟩
    cases hblank
  · refine ⟨(done.length + 1) :: new, by rw [hargv]; simp, ?_⟩
    rw [arguments_cons hskip, if_pos rfl, hquoted, map_cons, hstring, hnew]

theorem SplitRest.open_string (argv : List ℕ) (hs : NUL ∉ line)
    (hquoted : quoted '"' line = (line, [])) :
    SplitRest done ('"' :: line) argv (done ++ ('"' :: line ++ [NUL]))
      (argv ++ [done.length + 1]) := by
  have hskip : skipBlanks ('"' :: line) = '"' :: line := rfl
  have hstring : stringAt (done ++ ('"' :: line ++ [NUL])) (done.length + 1) = line := by
    have hat := stringAt_eq hs (done ++ ['"']) []
    have hbuf : done ++ ['"'] ++ (line ++ [NUL]) = done ++ ('"' :: line ++ [NUL]) := by simp
    rwa [hbuf, length_append, length_singleton] at hat
  refine ⟨⟨_, rfl, nofun⟩, [done.length + 1], rfl, ?_⟩
  rw [arguments_cons hskip, if_pos rfl, hquoted, arguments_nil rfl, map_singleton, hstring]

theorem SplitRest.word {more buf : Text} {argv argv' : List ℕ} (hc : isBlank c = false)
    (hquote : c ≠ '"') (hmore : afterWord (c :: line) = more) (hw : NUL ∉ c :: line)
    (h : SplitRest (done ++ Msh.word (c :: line)) more (argv ++ [done.length]) buf argv') :
    SplitRest done (c :: line) argv buf argv' := by
  obtain ⟨⟨tail, hbuf, hzero⟩, new, hargv, hnew⟩ := h
  have hskip : skipBlanks (c :: line) = c :: line := by
    unfold skipBlanks
    simp [hc]
  have hblank : more.head?.all isBlank = true := by
    have hhead := head?_dropWhile_not (! isBlank ·) (c :: line)
    have hmore' : (c :: line).dropWhile (! isBlank ·) = more := hmore
    rw [hmore'] at hhead
    cases hcase : more.head? with
    | none => rfl
    | some d =>
      rw [hcase] at hhead
      simpa using hhead
  have hstring : stringAt buf done.length = Msh.word (c :: line) := by
    have hnul : NUL ∉ Msh.word (c :: line) := fun hmem => hw ((takeWhile_sublist _).mem hmem)
    have htail : tail = NUL :: tail.tail := (cons_head?_tail (hzero hblank)).symm
    have hbuf' : buf = done ++ (Msh.word (c :: line) ++ NUL :: tail.tail) := by
      rw [← htail, hbuf, append_assoc]
    rw [hbuf']
    exact stringAt_eq hnul done tail.tail
  constructor
  · refine ⟨Msh.word (c :: line) ++ tail, by rw [hbuf, append_assoc], fun hblank => ?_⟩
    have hfirst : isBlank c = true := hblank
    rw [hc] at hfirst
    cases hfirst
  · refine ⟨done.length :: new, by rw [hargv]; simp, ?_⟩
    rw [arguments_cons hskip, if_neg hquote, hmore, map_cons, hstring, hnew]

theorem SplitRest.blanks {k : ℕ} {buf : Text} {argv argv' : List ℕ} (hline : line ≠ [])
    (hrest : skipBlanks line = rest) (hk : line.length = k + rest.length)
    (h : SplitRest (done ++ List.replicate k NUL) rest argv buf argv') :
    SplitRest done line argv buf argv' := by
  obtain ⟨⟨tail, hbuf, -⟩, new, hargv, hnew⟩ := h
  have hagain : skipBlanks rest = rest := by
    rw [← hrest]
    exact dropWhile_idempotent (isBlank ·) line
  constructor
  · refine ⟨List.replicate k NUL ++ tail, by rw [hbuf, append_assoc], fun hblank => ?_⟩
    cases k with
    | zero =>
      obtain ⟨c, line', hcons⟩ := exists_cons_of_ne_nil hline
      rw [hcons] at hblank hrest hk
      have hc : isBlank c = true := hblank
      have hshort := skipBlanks_length line'
      have hskip : skipBlanks (c :: line') = skipBlanks line' := by
        unfold skipBlanks
        simp [hc]
      rw [← hrest, hskip, length_cons] at hk
      omega
    | succ k => rfl
  · refine ⟨new, hargv, ?_⟩
    rw [hnew]
    cases hcase : rest with
    | nil =>
      rw [hcase] at hrest
      rw [arguments_nil hrest, arguments_nil rfl]
    | cons c tail =>
      rw [hcase] at hrest hagain
      rw [arguments_cons hrest, arguments_cons hagain]

section Argument

variable {next : Text → ℕ → List ℕ → Option (Text × List ℕ)} {argv : List ℕ}

/-- Whatever comes behind the next argument of `rest`, `next` splits. -/
def SplitsBehind (next : Text → ℕ → List ℕ → Option (Text × List ℕ)) (done rest : Text) : Prop :=
  ∀ (front more : Text) (argv : List ℕ), more.length < rest.length → NUL ∉ more →
    front.length + more.length = done.length + rest.length →
    ∃ buf argv', next (front ++ (more ++ [NUL])) front.length argv = some (buf, argv') ∧
      SplitRest front more argv buf argv'

theorem splitArgument_quote (next : Text → ℕ → List ℕ → Option (Text × List ℕ))
    (done line : Text) (argv : List ℕ) :
    splitArgument (done.length + ('"' :: line).length) next (done ++ '"' :: (line ++ [NUL]))
        done.length argv =
      if done.length + 1 + (quoted '"' line).1.length ≥ done.length + ('"' :: line).length then
        some (done ++ '"' :: (line ++ [NUL]), argv ++ [done.length + 1])
      else
        next ((done ++ '"' :: (line ++ [NUL])).set
            (done.length + 1 + (quoted '"' line).1.length) NUL)
          (done.length + 1 + (quoted '"' line).1.length + 1) (argv ++ [done.length + 1]) := by
  have hin : ¬ done.length ≥ done.length + ('"' :: line).length := by simp
  have hassoc : done ++ '"' :: (line ++ [NUL]) = (done ++ ['"']) ++ (line ++ [NUL]) := by simp
  have hplus : (done ++ ['"']).length = done.length + 1 := by simp
  have hskip := @skipString_eq (done.length + ('"' :: line).length)
    (done ++ '"' :: (line ++ [NUL])).length (done ++ ['"']) line '"' (by simp; lia)
    (by simp; lia) (fun _ => by decide)
  rw [hplus, ← hassoc] at hskip
  rw [splitArgument, if_neg hin, getElem?_done, bind_some, if_pos rfl, hskip, bind_some]

/-- A string that is closed goes up to its quote, an open one to the end of the line. -/
theorem splitArgument_string {line : Text} (hnul : NUL ∉ line)
    (hnext : SplitsBehind next done ('"' :: line)) :
    ∃ buf argv', splitArgument (done.length + ('"' :: line).length) next
        (done ++ '"' :: (line ++ [NUL])) done.length argv = some (buf, argv') ∧
      SplitRest done ('"' :: line) argv buf argv' := by
  rw [splitArgument_quote]
  obtain ⟨⟨s, more⟩, hquoted⟩ : ∃ q, quoted '"' line = q := ⟨_, rfl⟩
  have hcases := quoted_cases line '"'
  rw [hquoted] at hcases ⊢
  obtain rfl | ⟨rfl, rfl⟩ := hcases
  · have hstop : ¬ done.length + 1 + s.length ≥
        done.length + ('"' :: (s ++ '"' :: more)).length := by
      simp
      lia
    have hfront : (done ++ '"' :: s).length = done.length + 1 + s.length := by
      simp
      lia
    have hset : (done ++ '"' :: (s ++ '"' :: more ++ [NUL])).set (done.length + 1 + s.length) NUL =
        (done ++ '"' :: s ++ [NUL]) ++ (more ++ [NUL]) := by
      have hbuf : done ++ '"' :: (s ++ '"' :: more ++ [NUL]) =
          (done ++ '"' :: s) ++ '"' :: (more ++ [NUL]) := by
        simp
      rw [hbuf, ← hfront, set_done]
      simp
    have hlast : (done ++ '"' :: s ++ [NUL]).length = done.length + 1 + s.length + 1 := by
      rw [length_append, hfront, length_singleton]
    obtain ⟨buf, argv', hrun, hsplit⟩ := hnext (done ++ '"' :: s ++ [NUL]) more
      (argv ++ [done.length + 1]) (by simp; lia)
      (fun hmem => hnul (mem_append_right _ (mem_cons_of_mem _ hmem)))
      (by rw [hlast]; simp; lia)
    rw [if_neg hstop, hset, ← hlast]
    exact ⟨buf, argv', hrun, hsplit.string (fun hmem => hnul (mem_append_left _ hmem)) hquoted⟩
  · have hstop : done.length + 1 + line.length ≥ done.length + ('"' :: line).length := by
      rw [length_cons]
      lia
    rw [if_pos hstop]
    exact ⟨_, _, rfl, SplitRest.open_string argv hnul hquoted⟩

/-- A word goes up to the next blank or to the end of the line. -/
theorem splitArgument_word {c : Char} {line : Text} (hc : isBlank c = false) (hquote : c ≠ '"')
    (hnul : NUL ∉ c :: line) (hnext : SplitsBehind next done (c :: line)) :
    ∃ buf argv', splitArgument (done.length + (c :: line).length) next
        (done ++ c :: (line ++ [NUL])) done.length argv = some (buf, argv') ∧
      SplitRest done (c :: line) argv buf argv' := by
  have hin : ¬ done.length ≥ done.length + (c :: line).length := by simp
  have hskip := @skipWord_eq (done.length + (c :: line).length)
    (done ++ c :: (line ++ [NUL])).length done (c :: line) (by simp; lia) rfl
  rw [cons_append] at hskip
  rw [splitArgument, if_neg hin, getElem?_done, bind_some, if_neg hquote, hskip, bind_some]
  have hsplitLine : word (c :: line) ++ afterWord (c :: line) = c :: line :=
    takeWhile_append_dropWhile
  have hlength := congrArg List.length hsplitLine
  rw [length_append] at hlength
  by_cases hlast : afterWord (c :: line) = []
  · have hwhole : word (c :: line) = c :: line := by
      rwa [hlast, append_nil] at hsplitLine
    have hend := SplitRest.done_nil (done ++ word (c :: line)) (argv ++ [done.length])
    rw [hwhole, nil_append, append_assoc] at hend
    rw [if_pos (by rw [hwhole])]
    refine ⟨_, _, rfl, SplitRest.word hc hquote hlast hnul ?_⟩
    rw [hwhole]
    exact hend
  · have hstop : ¬ done.length + (word (c :: line)).length ≥ done.length + (c :: line).length := by
      have hpos := length_pos_iff.mpr hlast
      lia
    have hfront : (done ++ word (c :: line)).length =
        done.length + (word (c :: line)).length := length_append
    have hbuf : done ++ c :: (line ++ [NUL]) =
        (done ++ word (c :: line)) ++ (afterWord (c :: line) ++ [NUL]) := by
      rw [append_assoc, ← append_assoc (word _), hsplitLine]
      rfl
    obtain ⟨buf, argv', hrun, hsplit⟩ := hnext (done ++ word (c :: line))
      (afterWord (c :: line)) (argv ++ [done.length]) (afterWord_length hc)
      (fun hmem => hnul ((dropWhile_sublist _).mem hmem)) (by rw [hfront]; lia)
    rw [if_neg hstop, hbuf, ← hfront]
    exact ⟨buf, argv', hrun, SplitRest.word hc hquote rfl hnul hsplit⟩

theorem splitArgument_spec (hrest : skipBlanks rest = rest) (hnul : NUL ∉ rest)
    (hnext : SplitsBehind next done rest) :
    ∃ buf argv', splitArgument (done.length + rest.length) next (done ++ (rest ++ [NUL]))
        done.length argv = some (buf, argv') ∧ SplitRest done rest argv buf argv' := by
  cases rest with
  | nil =>
    rw [splitArgument, if_pos (by simp)]
    exact ⟨_, _, rfl, SplitRest.done_nil done argv⟩
  | cons c line =>
    by_cases hquote : c = '"'
    · subst hquote
      exact splitArgument_string (fun hmem => hnul (mem_cons_of_mem _ hmem)) hnext
    · exact splitArgument_word (skipBlanks_head hrest) hquote hnul hnext

end Argument

theorem splitLoop_spec (fuel : ℕ) :
    ∀ (done line : Text) (argv : List ℕ), line.length < fuel → NUL ∉ line →
      ∃ buf argv', splitLoop (done.length + line.length) fuel (done ++ (line ++ [NUL]))
          done.length argv = some (buf, argv') ∧ SplitRest done line argv buf argv' := by
  induction fuel with
  | zero =>
    intro done line argv hlen
    cases hlen
  | succ fuel ih =>
    intro done line argv hlen hnul
    rw [splitLoop]
    by_cases hempty : line = []
    · have hout : ¬ done.length < done.length + line.length := by
        rw [hempty]
        simp
      rw [if_neg hout, hempty]
      exact ⟨_, _, rfl, SplitRest.done_nil done argv⟩
    · have hpos := length_pos_iff.mpr hempty
      have hin : done.length < done.length + line.length := by lia
      have hroom : line.length < (done ++ (line ++ [NUL])).length := by
        simp only [length_append, length_singleton]
        lia
      have hstrip := @stripBlanks_eq (done.length + line.length) _ done line hroom rfl
      have hle := skipBlanks_length line
      obtain ⟨k, hk⟩ : ∃ k, line.length - (skipBlanks line).length = k := ⟨_, rfl⟩
      have hsum : line.length = k + (skipBlanks line).length := by lia
      have hfront : (done ++ List.replicate k NUL).length = done.length + k := by simp
      have hlength : done.length + line.length =
          (done ++ List.replicate k NUL).length + (skipBlanks line).length := by
        rw [hfront]
        lia
      have hagain : skipBlanks (skipBlanks line) = skipBlanks line :=
        dropWhile_idempotent (isBlank ·) line
      obtain ⟨buf, argv', hrun, hsplit⟩ := @splitArgument_spec
        (done ++ List.replicate k NUL) (skipBlanks line)
        (splitLoop (done.length + line.length) fuel) argv hagain
        (fun hmem => hnul ((dropWhile_sublist _).mem hmem)) (by
          intro front more argv hmore hnulMore hsame
          rw [hlength, ← hsame]
          exact ih front more argv (by lia) hnulMore)
      rw [if_pos hin, hstrip, bind_some, hk, ← hfront]
      rw [← hlength] at hrun
      exact ⟨buf, argv', hrun, hsplit.blanks hempty rfl hsum⟩

end Steps

/-- The pointers show the arguments of the command. -/
theorem mshSplit_spec (cmd : Text) (hnul : NUL ∉ cmd) :
    ∃ buf argv, mshSplit cmd = some (buf, argv) ∧ argv.map (stringAt buf) = arguments cmd := by
  obtain ⟨buf, argv, hrun, hsplit⟩ :=
    splitLoop_spec (cmd.length + 1) [] cmd [] (Nat.lt_succ_self _) hnul
  obtain ⟨new, hargv, hnew⟩ := hsplit.pointers
  rw [length_nil, zero_add, nil_append] at hrun
  rw [nil_append] at hargv
  rw [← hargv] at hnew
  exact ⟨buf, argv, hrun, hnew⟩

/-- A line is split as it should be when it has no more arguments than fit. -/
theorem splitsRight_iff (cmd : Text) (hnul : NUL ∉ cmd) :
    SplitsRight cmd ↔ (arguments cmd).length ≤ RT_FINSH_ARG_MAX := by
  obtain ⟨buf, argv, hrun, hargs⟩ := mshSplit_spec cmd hnul
  have hcount : argv.length = (arguments cmd).length := by
    rw [← hargs, length_map]
  constructor
  · rintro ⟨buf', argv', hrun', hfits, -⟩
    rw [hrun, some.injEq, Prod.mk.injEq] at hrun'
    rwa [← hcount, hrun'.2]
  · intro hfits
    exact ⟨buf, argv, hrun, hcount ▸ hfits, hargs⟩

theorem splitsRight_string : SplitsRight ['a', ' ', '"', 'b', ' ', '"'] ↔
      (arguments ['a', ' ', '"', 'b', ' ', '"']).length ≤ RT_FINSH_ARG_MAX :=
  splitsRight_iff ['a', ' ', '"', 'b', ' ', '"'] (by decide)

def elevenWords : Text :=
  ['0', ' ', '1', ' ', '2', ' ', '3', ' ', '4', ' ', '5', ' ', '6', ' ', '7', ' ', '8', ' ', '9',
    ' ', 'a']

/-- The eleventh word does not fit the table of arguments. -/
theorem not_splitsRight_eleven : ¬ ∀ cmd : Text, NUL ∉ cmd → SplitsRight cmd := by
  intro h
  obtain ⟨buf, argv, hrun, hfits, -⟩ := h elevenWords (by decide)
  have hcount : (mshSplit elevenWords).map (fun result => result.2.length) = some 11 := by decide
  rw [hrun] at hcount
  have heleven : argv.length = 11 := some.inj hcount
  rw [heleven] at hfits
  exact absurd hfits (by decide)

end RtThread.Msh
