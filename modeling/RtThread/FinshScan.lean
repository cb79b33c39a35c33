import RtThread.FinshToken

/-!
# What the tokenizer has still to read

The tokenizer reads a line up to its end or to a line feed.  Every step of it
is described by the characters that remain: reading takes the first of them,
a loop over a class of characters takes those in front that are in the class,
and giving back the character that ended the loop leaves the others.
-/

namespace RtThread.Finsh

open List FinshToken

def FinshToken.remaining (self : FinshToken) : List Char :=
  if self.eof then [] else (self.line.drop self.position).takeWhile (· ≠ '\n')

def FinshToken.advance (self : FinshToken) (n : ℕ) : FinshToken :=
  { self with position := self.position + n }

variable {self : FinshToken} {ch : Char} {chars rest : List Char} {p : Char → Bool} {n : ℕ}

@[simp] theorem FinshToken.advance_zero (self : FinshToken) : self.advance 0 = self := rfl

@[simp] theorem FinshToken.advance_advance (self : FinshToken) (m n : ℕ) :
    (self.advance m).advance n = self.advance (m + n) := by
  simp [advance, Nat.add_assoc]

section

variable (hrem : self.remaining = ch :: rest)
include hrem

theorem eof_of_remaining : self.eof = false := by
  cases heof : self.eof with
  | false => rfl
  | true => simp [remaining, heof] at hrem

theorem drop_of_remaining : ∃ tail, self.line.drop self.position = ch :: tail ∧ ch ≠ '\n' ∧
      tail.takeWhile (· ≠ '\n') = rest := by
  have heof := eof_of_remaining hrem
  rw [remaining, heof] at hrem
  cases hline : self.line.drop self.position with
  | nil => simp [hline] at hrem
  | cons c tail =>
    by_cases hfeed : c = '\n'
    · simp [hline, hfeed] at hrem
    · have hcons : c :: tail.takeWhile (· ≠ '\n') = ch :: rest := by
        simpa [hline, hfeed] using hrem
      obtain ⟨rfl, hrest⟩ := cons.inj hcons
      exact ⟨tail, rfl, hfeed, hrest⟩

theorem tokenNextChar_of_remaining : tokenNextChar self = (ch, self.advance 1) := by
  obtain ⟨tail, hline, hfeed, -⟩ := drop_of_remaining hrem
  have hget : self.line[self.position]? = some ch := by
    rw [← head?_drop, hline, head?_cons]
  simp [tokenNextChar, eof_of_remaining hrem, hget, hfeed, advance]

theorem remaining_advance_one : (self.advance 1).remaining = rest := by
  obtain ⟨tail, hline, -, hrest⟩ := drop_of_remaining hrem
  have hdrop : self.line.drop (self.position + 1) = tail := by
    rw [← drop_drop, hline, drop_one, tail_cons]
  simpa [remaining, advance, eof_of_remaining hrem, hdrop] using hrest

end

theorem remaining_advance (hrem : self.remaining = chars ++ rest) :
    (self.advance chars.length).remaining = rest := by
  induction chars generalizing self with
  | nil => exact hrem
  | cons ch chars ih =>
    have hrest := ih (remaining_advance_one hrem)
    rwa [advance_advance, Nat.add_comm] at hrest

def FinshToken.atEnd (self : FinshToken) : FinshToken :=
  if self.eof then self else { self with eof := true, position := 0 }

theorem tokenNextChar_of_end (hrem : self.remaining = []) :
    tokenNextChar self = ('\x00', self.atEnd) := by
  unfold tokenNextChar atEnd
  cases heof : self.eof with
  | true => rfl
  | false =>
    rw [remaining, heof] at hrem
    cases hget : self.line[self.position]? with
    | none => rfl
    | some ch =>
      rw [← head?_drop] at hget
      cases hline : self.line.drop self.position with
      | nil => simp [hline] at hget
      | cons c tail =>
        obtain rfl : c = ch := by simpa [hline] using hget
        have hfeed : c = '\n' := by
          by_contra hfeed
          simp [hline, hfeed] at hrem
        simp [hfeed]

@[simp] theorem eof_atEnd : self.atEnd.eof = true := by
  unfold atEnd
  split_ifs with heof
  · exact heof
  · rfl

@[simp] theorem remaining_atEnd : self.atEnd.remaining = [] := by
  simp [remaining]

theorem tokenPrevChar_advance_one (hrem : self.remaining = ch :: rest) :
    tokenPrevChar (self.advance 1) = self := by
  have heof := eof_of_remaining hrem
  have hsame : { self with eof := false } = self := by rw [← heof]
  simpa [tokenPrevChar, advance, heof] using hsame

theorem tokenPrevChar_atEnd : tokenPrevChar self.atEnd = self.atEnd := by
  simp [tokenPrevChar]

def FinshToken.peeked (self : FinshToken) : FinshToken :=
  if self.remaining = [] then self.atEnd else self

theorem tokenPrevChar_tokenNextChar (self : FinshToken) :
    tokenPrevChar (tokenNextChar self).2 = self.peeked := by
  cases hrem : self.remaining with
  | nil => simp [tokenNextChar_of_end hrem, peeked, hrem, tokenPrevChar_atEnd]
  | cons ch rest =>
    simp [tokenNextChar_of_remaining hrem, peeked, hrem, tokenPrevChar_advance_one hrem]

@[simp] theorem remaining_peeked (self : FinshToken) : self.peeked.remaining = self.remaining := by
  unfold peeked
  split_ifs with hrem
  · rw [remaining_atEnd, hrem]
  · rfl

theorem tokenNextChar_fst (self : FinshToken) :
    (tokenNextChar self).1 = self.remaining.headD '\x00' := by
  cases hrem : self.remaining with
  | nil => rw [tokenNextChar_of_end hrem, headD_nil]
  | cons ch rest => rw [tokenNextChar_of_remaining hrem, headD_cons]

theorem remaining_tokenNextChar (self : FinshToken) :
    (tokenNextChar self).2.remaining = self.remaining.tail := by
  cases hrem : self.remaining with
  | nil => rw [tokenNextChar_of_end hrem, remaining_atEnd, tail_nil]
  | cons ch rest =>
    rw [tokenNextChar_of_remaining hrem, remaining_advance_one hrem, tail_cons]

theorem length_remaining_le (self : FinshToken) : self.remaining.length ≤ self.line.length := by
  unfold remaining
  split_ifs
  · exact Nat.zero_le _
  · have htake := (takeWhile_sublist (fun c : Char => decide (c ≠ '\n'))
      (l := self.line.drop self.position)).length_le
    rw [length_drop] at htake
    omega

theorem scanLoop_tokenNextChar (hzero : p '\x00' = false) (hn : self.remaining.length < n) :
    scanLoop p n (tokenNextChar self) = (self.remaining.takeWhile p,
        tokenNextChar (self.advance (self.remaining.takeWhile p).length)) := by
  induction n generalizing self with
  | zero => cases hn
  | succ n ih =>
    cases hrem : self.remaining with
    | nil => simp [scanLoop, tokenNextChar_of_end hrem, hzero]
    | cons ch rest =>
      rw [tokenNextChar_of_remaining hrem, scanLoop]
      by_cases hch : p ch
      · have hrest := remaining_advance_one hrem
        have hlength : (self.advance 1).remaining.length < n := by
          rw [hrem, length_cons] at hn
          rw [hrest]
          omega
        simp [hch, ih hlength, hrest, Nat.add_comm]
      · simp [hch, tokenNextChar_of_remaining hrem]

theorem scanWhile_tokenNextChar (hzero : p '\x00' = false) : scanWhile p (tokenNextChar self) =
      (self.remaining.takeWhile p,
        tokenNextChar (self.advance (self.remaining.takeWhile p).length)) := by
  refine scanLoop_tokenNextChar hzero ?_
  have hline : (tokenNextChar self).2.line = self.line := by
    cases hrem : self.remaining with
    | nil =>
      rw [tokenNextChar_of_end hrem, atEnd]
      split_ifs <;> rfl
    | cons ch rest =>
      rw [tokenNextChar_of_remaining hrem]
      rfl
  rw [hline]
  exact Nat.lt_succ_of_le (length_remaining_le self)

theorem remaining_advance_takeWhile (self : FinshToken) (p : Char → Bool) :
    (self.advance (self.remaining.takeWhile p).length).remaining =
      self.remaining.dropWhile p :=
  remaining_advance takeWhile_append_dropWhile.symm

theorem takeWhile_append (hchars : ∀ c ∈ chars, p c) (hrest : ∀ c ∈ rest.head?, p c = false) :
    (chars ++ rest).takeWhile p = chars := by
  rw [takeWhile_append_of_pos hchars]
  cases rest with
  | nil => simp
  | cons c rest => simp [hrest c rfl]

theorem tokenTrimSpace_eq (self : FinshToken) :
    tokenTrimSpace self = (self.advance (self.remaining.takeWhile isBlank).length).peeked := by
  rw [tokenTrimSpace, scanWhile_tokenNextChar (by decide)]
  exact tokenPrevChar_tokenNextChar _

theorem remaining_tokenTrimSpace (self : FinshToken) :
    (tokenTrimSpace self).remaining = self.remaining.dropWhile isBlank := by
  rw [tokenTrimSpace_eq, remaining_peeked, remaining_advance_takeWhile]

def FinshToken.unnamed (self : FinshToken) : FinshToken :=
  { self with string := writeBuffer ['\x00'] self.string }

theorem cString_unnamed (self : FinshToken) : cString self.unnamed.string = [] := by
  simp [cString, unnamed, writeBuffer]

theorem isDigit_iff : ch.isDigit = true ↔ 48 ≤ ch.toNat ∧ ch.toNat ≤ 57 := by
  have hval : ch.val.toNat = ch.toNat := rfl
  simp only [Char.isDigit, Bool.and_eq_true, decide_eq_true_eq, ge_iff_le,
    UInt32.le_iff_toNat_le, hval]
  exact Iff.rfl

theorem isDigit_not_blank (hdigit : ch.isDigit) : isBlank ch = false := by
  cases hblank : isBlank ch with
  | false => rfl
  | true =>
    simp only [isBlank, Bool.or_eq_true, beq_iff_eq] at hblank
    rcases hblank with (rfl | rfl) | rfl <;> simp at hdigit

theorem tokenGetString_digit (hrem : self.remaining = ch :: rest) (hdigit : ch.isDigit) :
    tokenGetString self = some self.unnamed := by
  have heof : (self.advance 1).eof = false := (eof_of_remaining hrem :)
  have hback : tokenPrevChar (self.unnamed.advance 1) = self.unnamed :=
    tokenPrevChar_advance_one hrem
  have hopen : ¬(self.advance 1).eof = true := by simp [heof]
  unfold tokenGetString
  rw [tokenNextChar_of_remaining hrem]
  rw [if_neg hopen, if_pos hdigit]
  exact congrArg some hback

theorem tokenOperator_digit (hrem : self.remaining = ch :: rest) (hdigit : ch.isDigit) :
    tokenOperator self = (tokenProcNumber self).map (·, FinshError.ok) := by
  unfold tokenOperator
  rw [tokenNextChar_of_remaining hrem]
  dsimp only
  rw [tokenPrevChar_advance_one hrem]
  split
  all_goals first
    | cases hdigit
    | rw [if_pos hdigit]

theorem tokenRun_digit {blanks : List Char} (hrem : self.remaining = blanks ++ ch :: rest)
    (hblanks : ∀ b ∈ blanks, isBlank b) (hdigit : ch.isDigit) :
    ∃ start : FinshToken, start.remaining = ch :: rest ∧
      tokenRun self = (tokenProcNumber start).map (·, FinshError.ok) := by
  have htrim : (tokenTrimSpace self).remaining = ch :: rest := by
    rw [remaining_tokenTrimSpace, hrem, dropWhile_append_of_pos hblanks,
      dropWhile_cons_of_neg (by simp [isDigit_not_blank hdigit])]
  refine ⟨(tokenTrimSpace self).unnamed, htrim, ?_⟩
  have heof : (tokenTrimSpace self).unnamed.eof = false := eof_of_remaining htrim
  have hoperator : tokenOperator (tokenTrimSpace self).unnamed = _ :=
    tokenOperator_digit htrim hdigit
  rw [tokenRun, tokenGetString_digit htrim hdigit, Option.bind_eq_bind, Option.bind_some, heof,
    cString_unnamed]
  simpa using hoperator

theorem tokenGetString_separator (hrem : self.remaining = ch :: rest)
    (hseparator : isSeparator ch = true) : tokenGetString self = some self.unnamed := by
  have heof : (self.advance 1).eof = false := (eof_of_remaining hrem :)
  have hopen : ¬(self.advance 1).eof = true := by simp [heof]
  have hdigit : ¬ch.isDigit = true := by
    intro hdigit
    simp [isSeparator, Char.isAlphanum, hdigit] at hseparator
  have hscan : scanWhile (fun ch => !isSeparator ch) (ch, self.advance 1) =
      ([], ch, self.advance 1) := by
    simp [scanWhile, scanLoop, hseparator]
  have hback : tokenPrevChar ({ self.advance 1 with eof := false } : FinshToken) = self := by
    have hsame : ({ self.advance 1 with eof := false } : FinshToken) = self.advance 1 := by
      rw [← heof]
    rw [hsame, tokenPrevChar_advance_one hrem]
  unfold tokenGetString
  rw [tokenNextChar_of_remaining hrem]
  dsimp only
  rw [if_neg hopen, if_neg hdigit, hscan]
  rw [hback]
  rfl

theorem tokenRun_separator {blanks : List Char} (hrem : self.remaining = blanks ++ ch :: rest)
    (hblanks : ∀ b ∈ blanks, isBlank b) (hblank : isBlank ch = false)
    (hseparator : isSeparator ch = true) : (tokenTrimSpace self).unnamed.remaining = ch :: rest ∧
      tokenRun self = tokenOperator (tokenTrimSpace self).unnamed := by
  have htrim : (tokenTrimSpace self).remaining = ch :: rest := by
    rw [remaining_tokenTrimSpace, hrem, dropWhile_append_of_pos hblanks,
      dropWhile_cons_of_neg (by simp [hblank])]
  refine ⟨htrim, ?_⟩
  have heof : (tokenTrimSpace self).unnamed.eof = false := eof_of_remaining htrim
  rw [tokenRun, tokenGetString_separator htrim hseparator, Option.bind_eq_bind, Option.bind_some,
    heof, cString_unnamed]
  simp

theorem peeked_of_remaining (hrem : self.remaining = ch :: rest) : self.peeked = self := by
  rw [peeked, if_neg (by simp [hrem])]

end RtThread.Finsh
