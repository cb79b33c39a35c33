import Mathlib.Data.List.TakeWhile
import RtThread.FinshScan
import RtThread.Numerals

/-!
# Escapes in string and character constants

The body of a constant is a sequence of plain characters and escapes, as the
C language reads them.  The tokenizer has one decoder for strings and another
one for characters; the theorem at the end says which bodies they give the
meaning that C gives them.
-/

namespace RtThread.Finsh

open List

inductive LetterEscape
  | a | b | f | n | r | t | v
  deriving DecidableEq, Repr

namespace LetterEscape

def letter : LetterEscape → Char
  | a => 'a'
  | b => 'b'
  | f => 'f'
  | n => 'n'
  | r => 'r'
  | t => 't'
  | v => 'v'

def meaning : LetterEscape → Char
  | a => '\x07'
  | b => '\x08'
  | f => '\x0c'
  | n => '\n'
  | r => '\r'
  | t => '\t'
  | v => '\x0b'

end LetterEscape

inductive Piece
  | plain (ch : Char)
  | letter (e : LetterEscape)
  | backslash
  | singleQuote
  | doubleQuote
  | octal (digits : List Char)
  | hex (digits : List Char)
  deriving DecidableEq, Repr

def IsBaseDigit (base : ℕ) (ch : Char) : Prop :=
  ∃ d < base, Numerals.digitValue ch = some d

def numeralValue (base : ℕ) (digits : List Char) : ℕ :=
  digits.foldl (fun n ch => n * base + (Numerals.digitValue ch).getD 0) 0

namespace Piece

def text : Piece → List Char
  | plain ch => [ch]
  | letter e => ['\\', e.letter]
  | backslash => ['\\', '\\']
  | singleQuote => ['\\', '\'']
  | doubleQuote => ['\\', '"']
  | octal digits => '\\' :: digits
  | hex digits => '\\' :: 'x' :: digits

def meaning : Piece → Char
  | plain ch => ch
  | letter e => e.meaning
  | backslash => '\\'
  | singleQuote => '\''
  | doubleQuote => '"'
  | octal digits => Char.ofNat (numeralValue 8 digits)
  | hex digits => Char.ofNat (numeralValue 16 digits)

def Valid (quote : Char) : Piece → Prop
  | plain ch => ch ≠ quote ∧ ch ≠ '\\' ∧ ch ≠ '\n'
  | octal digits => 1 ≤ digits.length ∧ digits.length ≤ 3 ∧
      (∀ ch ∈ digits, IsBaseDigit 8 ch) ∧ numeralValue 8 digits ≤ 255
  | hex digits => 1 ≤ digits.length ∧ (∀ ch ∈ digits, IsBaseDigit 16 ch) ∧
      numeralValue 16 digits ≤ 255
  | _ => True

def Ends (next : Option Char) : Piece → Prop
  | octal digits => digits.length = 3 ∨ ∀ ch ∈ next, ¬IsBaseDigit 8 ch
  | hex _ => ∀ ch ∈ next, ¬IsBaseDigit 16 ch
  | _ => True

end Piece

def bodyText (pieces : List Piece) : List Char := pieces.flatMap Piece.text

def IsBody (quote : Char) : List Piece → Prop
  | [] => True
  | piece :: pieces => piece.Valid quote ∧ piece.Ends (bodyText pieces).head? ∧ IsBody quote pieces

def bodyMeaning (pieces : List Piece) : List Char := pieces.map Piece.meaning

/-! ## What the decoder of strings makes of a body -/

def isDecimalDigit : Char → Bool := isEscapeDigit 10

def Piece.emit : Piece → List Char × Option (ℕ × List Char)
  | .plain ch => ([ch], none)
  | .letter e => ([e.meaning], none)
  | .backslash => (['\x00'], none)
  | .singleQuote => (['\x00'], none)
  | .doubleQuote => (['\x00'], none)
  | .octal digits => ([], some (8, digits))
  | .hex digits =>
    if digits.all isDecimalDigit then ([], some (16, digits))
    else (escapeValue 16 (digits.takeWhile isDecimalDigit) :: digits.dropWhile isDecimalDigit, none)

def Piece.swallowedBy (b : ℕ) : Piece → Bool
  | .plain ch => isEscapeDigit b ch
  | _ => false

def decoded : Option (ℕ × List Char) → List Piece → List Char
  | none, [] => []
  | some (b, digits), [] => [escapeValue b digits]
  | none, piece :: pieces => piece.emit.1 ++ decoded piece.emit.2 pieces
  | some (b, digits), piece :: pieces =>
    if piece.swallowedBy b then decoded (some (b, digits ++ piece.text)) pieces
    else escapeValue b digits :: (piece.emit.1 ++ decoded piece.emit.2 pieces)

/-- The pieces the decoder of strings gets right before `next`: no backslash and no quote is
escaped, octal escapes have no octal digit behind them, and hexadecimal ones only decimal digits
in them and no character from `0` to `?` behind them. -/
def Piece.StringSafe (next : Option Piece) : Piece → Prop
  | .plain _ => True
  | .letter _ => True
  | .backslash => False
  | .singleQuote => False
  | .doubleQuote => False
  | .octal _ => ∀ other ∈ next, other.swallowedBy 8 = false
  | .hex digits => digits.all isDecimalDigit ∧ ∀ other ∈ next, other.swallowedBy 16 = false

def StringSafe : List Piece → Prop
  | [] => True
  | piece :: pieces => piece.StringSafe pieces.head? ∧ StringSafe pieces

/-! ## Values of digits -/

section Digits

variable {base b n v : ℕ} {ch : Char} {digits : List Char}

theorem isBaseDigit_cases (hdigit : IsBaseDigit base ch) :
    (48 ≤ ch.toNat ∧ ch.toNat ≤ 57 ∧ (Numerals.digitValue ch).getD 0 = ch.toNat - 48) ∨
      97 ≤ ch.toNat ∧ ch.toNat ≤ 102 ∧ (Numerals.digitValue ch).getD 0 = ch.toNat - 87 ∨
      65 ≤ ch.toNat ∧ ch.toNat ≤ 70 ∧ (Numerals.digitValue ch).getD 0 = ch.toNat - 55 := by
  obtain ⟨d, -, hvalue⟩ := hdigit
  rw [hvalue, Option.getD_some]
  exact Numerals.code_of_digitValue hvalue

theorem isEscapeDigit_iff : isEscapeDigit b ch = true ↔ 48 ≤ ch.toNat ∧ ch.toNat < 48 + b := by
  simp [isEscapeDigit]

theorem isEscapeDigit_of_octal (hdigit : IsBaseDigit 8 ch) : isEscapeDigit 8 ch = true := by
  obtain ⟨d, hlt, hvalue⟩ := hdigit
  have hcode := Numerals.code_of_digitValue hvalue
  exact isEscapeDigit_iff.mpr (by lia)

theorem isDecimalDigit_of_octal (hdigit : IsBaseDigit 8 ch) : isDecimalDigit ch = true := by
  have hcode := isEscapeDigit_iff.mp (isEscapeDigit_of_octal hdigit)
  exact isEscapeDigit_iff.mpr (by omega)

theorem digitValue_decimal (hdigit : isDecimalDigit ch = true) :
    (Numerals.digitValue ch).getD 0 = ch.toNat - 48 := by
  have hcode := isEscapeDigit_iff.mp hdigit
  rw [Numerals.digitValue_decimal hcode.1 (Nat.le_of_lt_succ hcode.2), Option.getD_some]

theorem foldl_decimal (hdigits : ∀ ch ∈ digits, isDecimalDigit ch = true) (n : ℕ) :
    digits.foldl (fun result ch => result * b + (ch.toNat - 48)) n =
      digits.foldl (fun n ch => n * b + (Numerals.digitValue ch).getD 0) n := by
  induction digits generalizing n with
  | nil => rfl
  | cons ch digits ih =>
    rw [foldl_cons, foldl_cons, digitValue_decimal (hdigits ch mem_cons_self)]
    exact ih (fun ch hch => hdigits ch (mem_cons_of_mem _ hch)) _

theorem escapeValue_eq (hdigits : ∀ ch ∈ digits, isDecimalDigit ch = true)
    (hvalue : numeralValue b digits ≤ 255) :
    escapeValue b digits = Char.ofNat (numeralValue b digits) := by
  rw [escapeValue, charOfNat, foldl_decimal hdigits]
  change Char.ofNat (numeralValue b digits % 256) = _
  rw [Nat.mod_eq_of_lt (by omega)]

theorem le_foldl (n : ℕ) : n * b ^ digits.length ≤
      digits.foldl (fun n ch => n * b + (Numerals.digitValue ch).getD 0) n := by
  induction digits generalizing n with
  | nil => simp
  | cons ch digits ih =>
    have hrest := ih (n * b + (Numerals.digitValue ch).getD 0)
    rw [foldl_cons, length_cons, Nat.pow_succ']
    refine le_trans ?_ hrest
    rw [← Nat.mul_assoc]
    exact Nat.mul_le_mul_right _ (Nat.le_add_right _ _)

theorem toNat_ofNat_of_le (hv : v ≤ 255) : (Char.ofNat v).toNat = v := by
  have hchar : v.isValidChar := .inl (by omega)
  rw [Char.ofNat, dif_pos hchar]
  rfl

theorem dropWhile_decimal (hletter : digits.all isDecimalDigit = false) :
    ∃ l post, digits.dropWhile isDecimalDigit = l :: post ∧ isDecimalDigit l = false := by
  have hhead := head?_dropWhile_not isDecimalDigit digits
  cases hdrop : digits.dropWhile isDecimalDigit with
  | nil =>
    rw [dropWhile_eq_nil_iff] at hdrop
    exact absurd (all_eq_true.mpr hdrop) (by simp [hletter])
  | cons l post =>
    rw [hdrop] at hhead
    exact ⟨l, post, rfl, hhead⟩

theorem emit_hex_letter
    (hvalid : (Piece.hex digits).Valid ch) (hletter : digits.all isDecimalDigit = false) :
    ∃ p rest, (Piece.hex digits).emit = (p :: rest, none) ∧
      p ≠ (Piece.hex digits).meaning ∧ rest ≠ [] ∧ (Piece.hex digits).meaning ∉ rest := by
  obtain ⟨-, hdigits, hvalue⟩ := hvalid
  have hemit : (Piece.hex digits).emit = (escapeValue 16 (digits.takeWhile isDecimalDigit) ::
      digits.dropWhile isDecimalDigit, none) := by
    rw [Piece.emit, if_neg (by simp [hletter])]
  have hparts := takeWhile_append_dropWhile (p := isDecimalDigit) (l := digits)
  obtain ⟨l, post, hdrop, hl⟩ := dropWhile_decimal hletter
  have hmem : ∀ c ∈ l :: post, IsBaseDigit 16 c := by
    intro c hc
    apply hdigits
    rw [← hparts, hdrop]
    exact mem_append_right _ hc
  have hnotDecimal : ¬(48 ≤ l.toNat ∧ l.toNat ≤ 57) := by
    rintro ⟨hlow, hhigh⟩
    exact absurd (isEscapeDigit_iff.mpr ⟨hlow, Nat.lt_succ_of_le hhigh⟩) (by
      simpa [isDecimalDigit] using hl)
  -- The value of the digits before the letter, times sixteen for each digit from it on.
  have hsum : numeralValue 16 digits = (post.foldl
      (fun n ch => n * 16 + (Numerals.digitValue ch).getD 0)
      (numeralValue 16 (digits.takeWhile isDecimalDigit) * 16 +
        (Numerals.digitValue l).getD 0)) := by
    conv_lhs => rw [← hparts, hdrop]
    rw [numeralValue, foldl_append, foldl_cons]
    rfl
  have hgrow := @le_foldl 16 post (numeralValue 16 (digits.takeWhile isDecimalDigit) * 16 +
        (Numerals.digitValue l).getD 0)
  rw [← hsum] at hgrow
  have hletterValue := isBaseDigit_cases (hmem l mem_cons_self)
  have hdecimal : ∀ c ∈ digits.takeWhile isDecimalDigit, isDecimalDigit c = true :=
    fun c hc => mem_takeWhile_imp hc
  have hpow : 1 ≤ 16 ^ post.length := Nat.one_le_pow _ _ (by decide)
  have hfirst : numeralValue 16 (digits.takeWhile isDecimalDigit) * 16 +
      (Numerals.digitValue l).getD 0 ≤ numeralValue 16 digits :=
    le_trans (Nat.le_mul_of_pos_right _ hpow) hgrow
  refine ⟨_, _, hemit, ?_, by simp [hdrop], ?_⟩
  · rw [escapeValue_eq hdecimal (by lia), Piece.meaning]
    intro heq
    have hcode := congrArg Char.toNat heq
    rw [toNat_ofNat_of_le (by lia), toNat_ofNat_of_le hvalue] at hcode
    lia
  · rw [hdrop, Piece.meaning]
    intro hin
    have hcode := isBaseDigit_cases (hmem _ hin)
    rw [toNat_ofNat_of_le hvalue] at hcode
    cases post with
    | nil =>
      rw [foldl_nil] at hsum
      lia
    | cons next post =>
      have hsixteen : 16 ≤ 16 ^ (next :: post).length := by
        rw [length_cons, Nat.pow_succ]
        exact Nat.le_mul_of_pos_left _ (Nat.pos_of_ne_zero (by positivity))
      have hlarge : 10 * 16 ≤ numeralValue 16 digits :=
        le_trans (Nat.mul_le_mul (by lia) hsixteen) hgrow
      lia

end Digits

/-! ## Right and wrong bodies -/

section Bodies

variable {quote : Char} {piece : Piece} {pieces : List Piece} {b : ℕ} {digits : List Char}

theorem emit_cases (hvalid : piece.Valid quote) :
    (∃ ch, piece.emit = ([ch], none)) ∨ (∃ number, piece.emit = ([], some number)) ∨
      ∃ p rest, piece.emit = (p :: rest, none) ∧ p ≠ piece.meaning ∧ rest ≠ [] ∧
        piece.meaning ∉ rest := by
  cases piece with
  | plain ch | letter e | backslash | singleQuote | doubleQuote => exact .inl ⟨_, rfl⟩
  | octal digits => exact .inr (.inl ⟨_, rfl⟩)
  | hex digits =>
    cases hdecimal : digits.all isDecimalDigit with
    | true => exact .inr (.inl ⟨_, by rw [Piece.emit, if_pos hdecimal]⟩)
    | false => exact .inr (.inr (emit_hex_letter hvalid hdecimal))

theorem decoded_swallowed (hswallowed : piece.swallowedBy b = true) :
    decoded (some (b, digits)) (piece :: pieces) =
      decoded (some (b, digits ++ piece.text)) pieces :=
  if_pos hswallowed

theorem decoded_ended (hswallowed : piece.swallowedBy b = false) :
    decoded (some (b, digits)) (piece :: pieces) =
      escapeValue b digits :: decoded none (piece :: pieces) :=
  if_neg (by simp [hswallowed])

def pending : Option (ℕ × List Char) → ℕ
  | none => 0
  | some _ => 1

theorem decoded_ne_append (hbody : IsBody quote pieces) (number : Option (ℕ × List Char))
    (due : List Char) (hdue : pending number < due.length) :
    decoded number pieces ≠ due ++ bodyMeaning pieces := by
  induction pieces generalizing number due with
  | nil =>
    rw [bodyMeaning, map_nil, append_nil]
    intro heq
    have hlength := congrArg List.length heq
    cases number with
    | none =>
      simp only [decoded, length_nil] at hlength
      omega
    | some number =>
      simp only [decoded, length_singleton] at hlength
      simp only [pending] at hdue
      omega
  | cons piece pieces ih =>
    obtain ⟨hvalid, -, hrest⟩ := hbody
    have hshift : ∀ due : List Char, due ++ bodyMeaning (piece :: pieces) =
        (due ++ [piece.meaning]) ++ bodyMeaning pieces := by
      intro due
      simp [bodyMeaning]
    have hfresh : ∀ due : List Char, 0 < due.length →
        piece.emit.1 ++ decoded piece.emit.2 pieces ≠ due ++ bodyMeaning (piece :: pieces) := by
      intro due hpos heq
      rw [hshift] at heq
      obtain ⟨first, later, rfl⟩ := exists_cons_of_length_pos hpos
      rcases emit_cases hvalid with ⟨ch, hemit⟩ | ⟨number, hemit⟩ | ⟨p, rest, hemit, -, hne, hnotin⟩
      · rw [hemit] at heq
        exact ih hrest none (later ++ [piece.meaning]) (by simp [pending]) (cons.inj heq).2
      · rw [hemit] at heq
        exact ih hrest (some number) (first :: later ++ [piece.meaning]) (by simp [pending]) heq
      · rw [hemit] at heq
        have htail : rest ++ decoded none pieces =
            (later ++ [piece.meaning]) ++ bodyMeaning pieces := (cons.inj heq).2
        -- The meaning is none of the characters stored, so it comes behind all of them.
        rw [append_assoc] at htail
        rcases append_eq_append_iff.mp htail with ⟨more, hlater, hdecoded⟩ |
          ⟨more, hstored, hleft⟩
        · rw [← append_assoc] at hdecoded
          exact ih hrest none (more ++ [piece.meaning]) (by simp [pending]) hdecoded
        · cases more with
          | nil =>
            exact ih hrest none [piece.meaning] (by simp [pending]) hleft.symm
          | cons c more =>
            obtain ⟨rfl, -⟩ := cons.inj hleft
            exact hnotin (hstored ▸ by simp)
    cases number with
    | none => exact hfresh due hdue
    | some number =>
      obtain ⟨b, digits⟩ := number
      simp only [pending] at hdue
      cases hswallowed : piece.swallowedBy b with
      | true =>
        rw [decoded_swallowed hswallowed, hshift]
        exact ih hrest _ _ (by simp [pending]; omega)
      | false =>
        rw [decoded_ended hswallowed]
        intro heq
        obtain ⟨first, later, rfl⟩ := exists_cons_of_length_pos (Nat.zero_lt_of_lt hdue)
        exact hfresh later (by simpa using hdue) (cons.inj heq).2

theorem decoded_number_iff (hbody : IsBody quote pieces)
    (hvalue : escapeValue b digits = piece.meaning) :
    decoded (some (b, digits)) pieces = piece.meaning :: bodyMeaning pieces ↔
      (∀ next ∈ pieces.head?, next.swallowedBy b = false) ∧
        decoded none pieces = bodyMeaning pieces := by
  cases pieces with
  | nil => simp [decoded, bodyMeaning, hvalue]
  | cons next pieces =>
    have hhead : (∀ other ∈ (next :: pieces).head?, other.swallowedBy b = false) ↔
        next.swallowedBy b = false := by simp
    rw [hhead]
    cases hswallowed : next.swallowedBy b with
    | true =>
      refine iff_of_false ?_ (by simp)
      rw [decoded_swallowed hswallowed]
      exact decoded_ne_append hbody.2.2 _ [piece.meaning, next.meaning] (by simp [pending])
    | false => rw [decoded_ended hswallowed, hvalue, cons_inj_right, and_iff_right rfl]

theorem escapeValue_octal (hvalid : (Piece.octal digits).Valid quote) :
    escapeValue 8 digits = (Piece.octal digits).meaning :=
  escapeValue_eq (fun ch hch => isDecimalDigit_of_octal (hvalid.2.2.1 ch hch)) hvalid.2.2.2

theorem escapeValue_hex (hvalid : (Piece.hex digits).Valid quote)
    (hdecimal : digits.all isDecimalDigit = true) :
    escapeValue 16 digits = (Piece.hex digits).meaning :=
  escapeValue_eq (all_eq_true.mp hdecimal) hvalid.2.2

/-- The escapes of a string keep their meanings exactly when none swallows what follows. -/
theorem decoded_eq_iff (hbody : IsBody quote pieces) :
    decoded none pieces = bodyMeaning pieces ↔ StringSafe pieces := by
  induction pieces with
  | nil => exact iff_of_true rfl trivial
  | cons piece pieces ih =>
    obtain ⟨hvalid, -, hrest⟩ := hbody
    have hmeaning : bodyMeaning (piece :: pieces) = piece.meaning :: bodyMeaning pieces := rfl
    rw [hmeaning, StringSafe, ← ih hrest]
    change piece.emit.1 ++ decoded piece.emit.2 pieces = _ ↔ _
    cases piece with
    | plain ch | letter e | backslash | singleQuote | doubleQuote =>
      simp [Piece.emit, Piece.meaning, Piece.StringSafe]
    | octal digits => exact decoded_number_iff hrest (escapeValue_octal hvalid)
    | hex digits =>
      cases hdecimal : digits.all isDecimalDigit with
      | true =>
        have hemit : (Piece.hex digits).emit = ([], some (16, digits)) := by
          rw [Piece.emit, if_pos hdecimal]
        rw [hemit, Piece.StringSafe, and_iff_right hdecimal]
        exact decoded_number_iff hrest (escapeValue_hex hvalid hdecimal)
      | false =>
        obtain ⟨p, rest, hemit, hne, -, -⟩ := emit_hex_letter hvalid hdecimal
        rw [hemit]
        simp [hne, Piece.StringSafe, hdecimal]

end Bodies

/-! ## `token_proc_escape` -/

section Escape

variable {self : FinshToken} {ch : Char} {rest body : List Char} {b : ℕ}

theorem tokenProcEscape_letter (e : LetterEscape) (hrem : self.remaining = e.letter :: rest) :
    tokenProcEscape self = (e.meaning, self.advance 1) := by
  unfold tokenProcEscape
  rw [tokenNextChar_of_remaining hrem]
  cases e <;> rfl

theorem tokenProcEscape_quote (hrem : self.remaining = ch :: rest)
    (hch : ch = '\\' ∨ ch = '\'' ∨ ch = '"') :
    tokenProcEscape self = ('\x00', self.advance 1) := by
  unfold tokenProcEscape
  rw [tokenNextChar_of_remaining hrem]
  rcases hch with rfl | rfl | rfl <;> rfl

theorem isEscapeDigit_zero : isEscapeDigit b '\x00' = false := by
  simp [isEscapeDigit]

theorem tokenProcEscape_octal (hrem : self.remaining = ch :: rest)
    (hdigit : isEscapeDigit 8 ch = true) : tokenProcEscape self =
      (escapeValue 8 (self.remaining.takeWhile (isEscapeDigit 8)),
        (self.advance (self.remaining.takeWhile (isEscapeDigit 8)).length).peeked) := by
  have hscan : scanWhile (isEscapeDigit 8) (tokenNextChar self) = _ :=
    scanWhile_tokenNextChar isEscapeDigit_zero
  rw [tokenNextChar_of_remaining hrem] at hscan
  unfold tokenProcEscape
  rw [tokenNextChar_of_remaining hrem]
  dsimp only
  split
  iterate 8 cases hdigit
  rw [if_pos hdigit, hscan]
  rw [tokenPrevChar_tokenNextChar]

theorem tokenProcEscape_hex (hrem : self.remaining = 'x' :: body) : tokenProcEscape self =
      (escapeValue 16 (body.takeWhile (isEscapeDigit 16)),
        ((self.advance 1).advance (body.takeWhile (isEscapeDigit 16)).length).peeked) := by
  have hscan : scanWhile (isEscapeDigit 16) (tokenNextChar (self.advance 1)) = _ :=
    scanWhile_tokenNextChar isEscapeDigit_zero
  rw [remaining_advance_one hrem] at hscan
  unfold tokenProcEscape
  rw [tokenNextChar_of_remaining hrem]
  dsimp only
  rw [hscan]
  rw [tokenPrevChar_tokenNextChar]
  rfl

end Escape

/-! ## `token_proc_string` -/

section Strings

variable {self : FinshToken} {ch : Char} {rest out acc chars : List Char} {n b : ℕ}
  {piece : Piece} {pieces : List Piece} {digits : List Char}
  {result : Option (List Char × FinshToken × FinshError)}

/-- The loop with room for `n` characters stores `out` and a zero behind `acc` and leaves `rest`,
unless `out` does not fit. -/
structure Stores (n : ℕ) (acc out rest : List Char)
    (result : Option (List Char × FinshToken × FinshError)) : Prop where
  fits : out.length < n → ∃ last, result = some (acc ++ out ++ ['\x00'], last, .ok) ∧
    last.remaining = rest
  full : n ≤ out.length → result = none

theorem stores_zero : Stores 0 acc out rest none where
  fits := nofun
  full _ := rfl

theorem Stores.cons (h : Stores n (acc ++ [ch]) out rest result) :
    Stores (n + 1) acc (ch :: out) rest result where
  fits hlength := by
    obtain ⟨last, hresult, hlast⟩ := h.fits (Nat.lt_of_succ_lt_succ hlength)
    exact ⟨last, by simpa using hresult, hlast⟩
  full hlength := h.full (Nat.le_of_succ_le_succ hlength)

theorem eof_advance_one (hrem : self.remaining = ch :: rest) : ¬(self.advance 1).eof = true := by
  have heof : (self.advance 1).eof = false := (eof_of_remaining hrem :)
  simp [heof]

theorem stringLoop_plain (hrem : self.remaining = ch :: rest) (hescape : ch ≠ '\\')
    (hquote : ch ≠ '"') :
    stringLoop (n + 1) acc self = stringLoop n (acc ++ [ch]) (self.advance 1) := by
  rw [stringLoop, tokenNextChar_of_remaining hrem]
  dsimp only
  rw [if_neg (eof_advance_one hrem), if_neg hescape, if_neg hquote]

theorem stringLoop_escape (hrem : self.remaining = '\\' :: rest) : stringLoop (n + 1) acc self =
      stringLoop n (acc ++ [(tokenProcEscape (self.advance 1)).1])
        (tokenProcEscape (self.advance 1)).2 := by
  rw [stringLoop, tokenNextChar_of_remaining hrem]
  dsimp only
  rw [if_neg (eof_advance_one hrem), if_pos rfl]

theorem stores_quote (hrem : self.remaining = '"' :: rest) :
    Stores (n + 1) acc [] rest (stringLoop (n + 1) acc self) where
  fits _ := by
    rw [stringLoop, tokenNextChar_of_remaining hrem]
    dsimp only
    rw [if_neg (eof_advance_one hrem), if_neg (by decide), if_pos rfl]
    exact ⟨self.advance 1, by simp, remaining_advance_one hrem⟩
  full := nofun

def quoted (pieces : List Piece) (rest : List Char) : List Char :=
  bodyText pieces ++ '"' :: rest

theorem quoted_cons (piece : Piece) (pieces : List Piece) (rest : List Char) :
    quoted (piece :: pieces) rest = piece.text ++ quoted pieces rest := by
  simp [quoted, bodyText]

theorem dropWhile_quoted (pieces : List Piece) (rest : List Char) (b : ℕ) :
    ∃ ch tail, (quoted pieces rest).dropWhile (isEscapeDigit b) = ch :: tail := by
  apply exists_cons_of_ne_nil
  intro hnil
  have hquote := dropWhile_eq_nil_iff.mp hnil '"' (by simp [quoted])
  simp [isEscapeDigit] at hquote

theorem takeWhile_quoted (hb : b ≤ 16) (hended : piece.swallowedBy b = false) :
    (quoted (piece :: pieces) rest).takeWhile (isEscapeDigit b) = [] := by
  have hescape : isEscapeDigit b '\\' = false := by
    rw [Bool.eq_false_iff]
    intro hdigit
    have hcode : 92 < 48 + b := (isEscapeDigit_iff.mp hdigit).2
    omega
  rw [quoted_cons]
  cases piece with
  | plain ch =>
    have hch : isEscapeDigit b ch = false := hended
    simp [Piece.text, hch]
  | _ => simp [Piece.text, hescape]

theorem stores_chars {more : List Char} (hchars : ∀ c ∈ chars, c ≠ '\\' ∧ c ≠ '"')
    (hmore : ∀ n acc (self : FinshToken), self.remaining = more →
      Stores n acc out rest (stringLoop n acc self)) (hrem : self.remaining = chars ++ more) :
    Stores n acc (chars ++ out) rest (stringLoop n acc self) := by
  induction chars generalizing n acc self with
  | nil => exact hmore n acc self hrem
  | cons c chars ih =>
    cases n with
    | zero => exact stores_zero
    | succ n =>
      have hc := hchars c mem_cons_self
      rw [stringLoop_plain hrem hc.1 hc.2]
      exact (ih (fun c hc => hchars c (mem_cons_of_mem _ hc))
        (remaining_advance_one hrem)).cons

theorem takeWhile_hex_letter (hdigits : ∀ c ∈ digits, IsBaseDigit 16 c)
    (hletter : digits.all isDecimalDigit = false) (more : List Char) :
    (digits ++ more).takeWhile (isEscapeDigit 16) = digits.takeWhile isDecimalDigit := by
  have hparts := takeWhile_append_dropWhile (p := isDecimalDigit) (l := digits)
  obtain ⟨l, post, hdrop, hl⟩ := dropWhile_decimal hletter
  rw [hdrop] at hparts
  conv_lhs => rw [← hparts, append_assoc]
  apply takeWhile_append
  · intro c hc
    have hcode := isEscapeDigit_iff.mp (mem_takeWhile_imp hc)
    exact isEscapeDigit_iff.mpr (by omega)
  · intro c hc
    obtain rfl : l = c := by simpa using hc
    have hcode := isBaseDigit_cases (hdigits l (by rw [← hparts]; simp))
    rw [Bool.eq_false_iff]
    intro hdigit
    have hrange := isEscapeDigit_iff.mp hdigit
    have hdecimal : isDecimalDigit l = true := isEscapeDigit_iff.mpr (by omega)
    exact absurd hl (by simp [hdecimal])

def StoresBody (pieces : List Piece) (rest : List Char) : Prop :=
  ∀ n acc (self : FinshToken), self.remaining = quoted pieces rest →
    Stores n acc (decoded none pieces) rest (stringLoop n acc self)

def StoresNumber (b : ℕ) (pieces : List Piece) (rest : List Char) : Prop :=
  ∀ digits n acc (self : FinshToken), self.remaining = quoted pieces rest →
    Stores (n + 1) acc (decoded (some (b, digits)) pieces) rest (stringLoop n (acc ++ [escapeValue b
          (digits ++ (quoted pieces rest).takeWhile (isEscapeDigit b))])
        (self.advance ((quoted pieces rest).takeWhile (isEscapeDigit b)).length))

theorem stores_octal (hnumber : StoresNumber 8 pieces rest) (hvalid : (Piece.octal digits).Valid '"')
    (hrem : self.remaining = '\\' :: (digits ++ quoted pieces rest)) :
    Stores (n + 1) acc (decoded (some (8, digits)) pieces) rest (stringLoop (n + 1) acc self) := by
  have hnext := remaining_advance_one hrem
  have hoctal : ∀ c ∈ digits, isEscapeDigit 8 c = true :=
    fun c hc => isEscapeDigit_of_octal (hvalid.2.2.1 c hc)
  obtain ⟨d, tail, rfl⟩ := exists_cons_of_length_pos hvalid.1
  have hread := tokenProcEscape_octal hnext (hoctal d mem_cons_self)
  have hdone : ((self.advance 1).advance (((d :: tail) ++
      quoted pieces rest).takeWhile (isEscapeDigit 8)).length).remaining =
      (quoted pieces rest).dropWhile (isEscapeDigit 8) := by
    rw [← hnext, remaining_advance_takeWhile, hnext, dropWhile_append_of_pos hoctal]
  obtain ⟨c, more, hmore⟩ := dropWhile_quoted pieces rest 8
  rw [hmore] at hdone
  rw [hnext, peeked_of_remaining hdone, takeWhile_append_of_pos hoctal,
    length_append] at hread
  rw [stringLoop_escape hrem, hread, ← FinshToken.advance_advance]
  exact hnumber (d :: tail) n acc _ (remaining_advance hnext)

theorem stores_hex (hplain : StoresBody pieces rest) (hnumber : StoresNumber 16 pieces rest)
    (hvalid : (Piece.hex digits).Valid '"')
    (hrem : self.remaining = '\\' :: 'x' :: (digits ++ quoted pieces rest)) :
    Stores (n + 1) acc ((Piece.hex digits).emit.1 ++ decoded (Piece.hex digits).emit.2 pieces) rest
      (stringLoop (n + 1) acc self) := by
  have hnext := remaining_advance_one hrem
  have hdigits := remaining_advance_one hnext
  rw [stringLoop_escape hrem, tokenProcEscape_hex hnext]
  cases hdecimal : digits.all isDecimalDigit with
  | true =>
    have hemit : (Piece.hex digits).emit = ([], some (16, digits)) := by
      rw [Piece.emit, if_pos hdecimal]
    have hall : ∀ c ∈ digits, isEscapeDigit 16 c = true := by
      intro c hc
      have hcode := isEscapeDigit_iff.mp (all_eq_true.mp hdecimal c hc)
      exact isEscapeDigit_iff.mpr (by omega)
    have hdone := remaining_advance_takeWhile ((self.advance 1).advance 1) (isEscapeDigit 16)
    obtain ⟨c, more, hmore⟩ := dropWhile_quoted pieces rest 16
    rw [hdigits, dropWhile_append_of_pos hall, hmore] at hdone
    rw [hemit, peeked_of_remaining hdone, takeWhile_append_of_pos hall, length_append,
      ← FinshToken.advance_advance]
    exact hnumber digits n acc _ (remaining_advance hdigits)
  | false =>
    have hemit : (Piece.hex digits).emit = (escapeValue 16 (digits.takeWhile isDecimalDigit) ::
          digits.dropWhile isDecimalDigit, none) := by
      rw [Piece.emit, if_neg (by simp [hdecimal])]
    have hbehind : ((self.advance 1).advance 1).remaining = digits.takeWhile isDecimalDigit ++
          (digits.dropWhile isDecimalDigit ++ quoted pieces rest) := by
      rw [hdigits, ← append_assoc, takeWhile_append_dropWhile]
    have hdone := remaining_advance hbehind
    have hplainDigits : ∀ c ∈ digits.dropWhile isDecimalDigit, c ≠ '\\' ∧ c ≠ '"' := by
      intro c hc
      have hcode := isBaseDigit_cases (hvalid.2.1 c ((dropWhile_sublist _).subset hc))
      constructor <;> rintro rfl <;> simp at hcode
    have hmore : ∃ c more, digits.dropWhile isDecimalDigit ++ quoted pieces rest = c :: more :=
      exists_cons_of_ne_nil (by simp [quoted])
    obtain ⟨c, more, hmore⟩ := hmore
    rw [takeWhile_hex_letter hvalid.2.1 hdecimal, hemit, peeked_of_remaining (hdone.trans hmore)]
    exact (stores_chars hplainDigits hplain hdone).cons

theorem stores_piece (hvalid : piece.Valid '"') (hplain : StoresBody pieces rest)
    (hnumber : ∀ b ≤ 16, StoresNumber b pieces rest) : StoresBody (piece :: pieces) rest := by
  intro n acc self hrem
  cases n with
  | zero => exact stores_zero
  | succ n =>
    rw [quoted_cons] at hrem
    change Stores (n + 1) acc (piece.emit.1 ++ decoded piece.emit.2 pieces) rest _
    cases piece with
    | plain ch =>
      rw [stringLoop_plain hrem hvalid.2.1 hvalid.1]
      exact (hplain n _ _ (remaining_advance_one hrem)).cons
    | letter e =>
      have hnext := remaining_advance_one hrem
      rw [stringLoop_escape hrem, tokenProcEscape_letter e hnext]
      exact (hplain n _ _ (remaining_advance_one hnext)).cons
    | backslash | singleQuote | doubleQuote =>
      have hnext := remaining_advance_one hrem
      rw [stringLoop_escape hrem, tokenProcEscape_quote hnext (by decide)]
      exact (hplain n _ _ (remaining_advance_one hnext)).cons
    | octal digits => exact stores_octal (hnumber 8 (by decide)) hvalid hrem
    | hex digits => exact stores_hex hplain (hnumber 16 le_rfl) hvalid hrem

theorem stores_decoded (hbody : IsBody '"' pieces) :
    StoresBody pieces rest ∧ ∀ b ≤ 16, StoresNumber b pieces rest := by
  induction pieces with
  | nil =>
    have hplain : StoresBody [] rest := by
      intro n acc self hrem
      cases n with
      | zero => exact stores_zero
      | succ n => exact stores_quote hrem
    refine ⟨hplain, fun b hb digits n acc self hrem => ?_⟩
    have hquote : isEscapeDigit b '"' = false := by simp [isEscapeDigit]
    have htake : (quoted [] rest).takeWhile (isEscapeDigit b) = [] := by
      simp [quoted, bodyText, hquote]
    rw [htake, append_nil]
    exact (hplain n _ self hrem).cons
  | cons piece pieces ih =>
    obtain ⟨hvalid, hends, hrest⟩ := hbody
    obtain ⟨ihplain, ihnumber⟩ := ih hrest
    have hplain := stores_piece hvalid ihplain ihnumber
    refine ⟨hplain, fun b hb digits n acc self hrem => ?_⟩
    cases hswallowed : piece.swallowedBy b with
    | false =>
      rw [takeWhile_quoted hb hswallowed, decoded_ended hswallowed, append_nil]
      exact (hplain n _ self hrem).cons
    | true =>
      cases piece with
      | plain ch =>
        have hdigit : isEscapeDigit b ch = true := hswallowed
        have hnumber := ihnumber b hb (digits ++ [ch]) n acc (self.advance 1)
          (remaining_advance_one hrem)
        rw [quoted_cons, decoded_swallowed hswallowed]
        simpa [Piece.text, hdigit, Nat.add_comm] using hnumber
      | _ => cases hswallowed

end Strings

/-! ## `token_proc_char` -/

/-- The pieces the decoder of characters gets right: not the escapes `a` and `f`, the double
quote and hexadecimal numbers, and of octal numbers only zero. -/
def Piece.CharSafe : Piece → Prop
  | .plain _ => True
  | .letter e => e ≠ .a ∧ e ≠ .f
  | .backslash => True
  | .singleQuote => True
  | .doubleQuote => False
  | .octal digits => numeralValue 8 digits = 0
  | .hex _ => False

section Characters

variable {self : FinshToken} {ch : Char} {rest : List Char} {piece : Piece}

theorem tokenCharEscape_number (hrem : self.remaining = ch :: rest)
    (hother : ch ∉ ['n', 't', 'v', 'b', 'r', '\\', '\'']) : tokenCharEscape self =
      if (self.remaining.takeWhile Char.isDigit).length < 4 then
        some ('\x00', (self.advance (self.remaining.takeWhile Char.isDigit).length).peeked)
      else none := by
  have hscan : scanWhile Char.isDigit (tokenNextChar self) = _ :=
    scanWhile_tokenNextChar (by decide)
  rw [tokenNextChar_of_remaining hrem] at hscan
  unfold tokenCharEscape
  rw [tokenNextChar_of_remaining hrem]
  dsimp only
  split
  iterate 7 simp at hother
  rw [hscan]
  rw [tokenPrevChar_tokenNextChar]

theorem tokenProcChar_plain (hrem : self.remaining = ch :: '\'' :: rest) (hch : ch ≠ '\\') :
    tokenProcChar self = some (ch, (self.advance 1).advance 1, .ok) := by
  have hnext := remaining_advance_one hrem
  simp [tokenProcChar, tokenNextChar_of_remaining hrem, hch, tokenNextChar_of_remaining hnext]

theorem tokenProcChar_escape {next : FinshToken} {more : List Char}
    (hrem : self.remaining = '\\' :: more)
    (hescape : tokenCharEscape (self.advance 1) = some (ch, next)) :
    (∀ rest, next.remaining = '\'' :: rest → tokenProcChar self = some (ch, next.advance 1, .ok)) ∧
    (∀ c rest, next.remaining = c :: rest → c ≠ '\'' →
      ∃ last, tokenProcChar self = some (ch, last, .expectChar)) := by
  constructor
  · intro rest hnext
    simp [tokenProcChar, tokenNextChar_of_remaining hrem, hescape, tokenNextChar_of_remaining hnext]
  · intro c rest hnext hc
    simp [tokenProcChar, tokenNextChar_of_remaining hrem, hescape,
      tokenNextChar_of_remaining hnext, hc]

theorem tokenProcChar_unknown (hrem : self.remaining = '\\' :: ch :: rest)
    (hother : ch ∉ ['n', 't', 'v', 'b', 'r', '\\', '\'']) (hdigit : ch.isDigit = false) :
    ∃ last, tokenProcChar self = some ('\x00', last, .expectChar) := by
  have hnext := remaining_advance_one hrem
  have hescape := tokenCharEscape_number hnext hother
  have htake : (self.advance 1).remaining.takeWhile Char.isDigit = [] := by
    rw [hnext]
    simp [hdigit]
  rw [htake, length_nil, if_pos (by decide), FinshToken.advance_zero,
    peeked_of_remaining hnext] at hescape
  refine (tokenProcChar_escape hrem hescape).2 ch rest hnext ?_
  rintro rfl
  exact hother (by decide)

theorem isDigit_of_decimal (hdigit : isDecimalDigit ch = true) : ch.isDigit = true := by
  have hcode := isEscapeDigit_iff.mp hdigit
  exact isDigit_iff.mpr ⟨hcode.1, Nat.le_of_lt_succ hcode.2⟩

theorem tokenProcChar_octal {digits : List Char} (hvalid : (Piece.octal digits).Valid '\'')
    (hrem : self.remaining = '\\' :: (digits ++ '\'' :: rest)) :
    ∃ last, tokenProcChar self = some ('\x00', last, .ok) ∧ last.remaining = rest := by
  have hnext := remaining_advance_one hrem
  have hdigits : ∀ c ∈ digits, c.isDigit = true :=
    fun c hc => isDigit_of_decimal (isDecimalDigit_of_octal (hvalid.2.2.1 c hc))
  have htake : (self.advance 1).remaining.takeWhile Char.isDigit = digits := by
    rw [hnext]
    exact takeWhile_append hdigits (by simp)
  have hquote : ((self.advance 1).advance digits.length).remaining = '\'' :: rest :=
    remaining_advance hnext
  obtain ⟨d, tail, rfl⟩ := exists_cons_of_length_pos hvalid.1
  have hother : d ∉ ['n', 't', 'v', 'b', 'r', '\\', '\''] := by
    intro hmem
    have hd := hdigits d mem_cons_self
    simp only [mem_cons, not_mem_nil, or_false] at hmem
    rcases hmem with rfl | rfl | rfl | rfl | rfl | rfl | rfl <;> simp at hd
  have hescape := tokenCharEscape_number hnext hother
  rw [htake, if_pos (Nat.lt_succ_of_le hvalid.2.1), peeked_of_remaining hquote] at hescape
  exact ⟨_, (tokenProcChar_escape hrem hescape).1 rest hquote, remaining_advance_one hquote⟩

theorem tokenProcChar_iff (hvalid : piece.Valid '\'')
    (hrem : self.remaining = piece.text ++ '\'' :: rest) :
    (∃ last, tokenProcChar self = some (piece.meaning, last, .ok) ∧ last.remaining = rest) ↔
      piece.CharSafe := by
  have hwrong : ∀ c : Char, (∃ last, tokenProcChar self = some (c, last, .expectChar)) →
      ¬∃ last, tokenProcChar self = some (piece.meaning, last, .ok) ∧ last.remaining = rest := by
    rintro c ⟨last, hread⟩ ⟨last', hread', -⟩
    rw [hread] at hread'
    simp at hread'
  have hknown : ∀ c, self.remaining = '\\' :: c :: '\'' :: rest →
      tokenCharEscape (self.advance 1) = some (piece.meaning, (self.advance 1).advance 1) →
      ∃ last, tokenProcChar self = some (piece.meaning, last, .ok) ∧ last.remaining = rest := by
    intro c hself hescape
    have hquote := remaining_advance_one (remaining_advance_one hself)
    exact ⟨_, (tokenProcChar_escape hself hescape).1 rest hquote, remaining_advance_one hquote⟩
  cases piece with
  | plain ch =>
    refine iff_of_true ⟨_, tokenProcChar_plain hrem hvalid.2.1, ?_⟩ trivial
    exact remaining_advance_one (remaining_advance_one hrem)
  | letter e =>
    have hnext := tokenNextChar_of_remaining (remaining_advance_one hrem)
    cases e with
    | a =>
      have hread := hwrong _ (tokenProcChar_unknown hrem (by decide) rfl)
      exact iff_of_false hread (fun h => h.1 rfl)
    | f =>
      have hread := hwrong _ (tokenProcChar_unknown hrem (by decide) rfl)
      exact iff_of_false hread (fun h => h.2 rfl)
    | _ =>
      refine iff_of_true (hknown _ hrem ?_) ⟨by decide, by decide⟩
      rw [tokenCharEscape, hnext]
      rfl
  | backslash | singleQuote =>
    have hnext := tokenNextChar_of_remaining (remaining_advance_one hrem)
    refine iff_of_true (hknown _ hrem ?_) trivial
    rw [tokenCharEscape, hnext]
    rfl
  | doubleQuote | hex digits =>
    exact iff_of_false (hwrong _ (tokenProcChar_unknown hrem (by decide) rfl)) id
  | octal digits =>
    obtain ⟨last, hread, hlast⟩ := tokenProcChar_octal hvalid hrem
    change _ ↔ numeralValue 8 digits = 0
    constructor
    · rintro ⟨last', hread', -⟩
      rw [hread] at hread'
      have hzero : '\x00' = Char.ofNat (numeralValue 8 digits) :=
        (Prod.mk.inj (Option.some.inj hread')).1
      have hcode := congrArg Char.toNat hzero
      rw [toNat_ofNat_of_le hvalid.2.2.2] at hcode
      exact hcode.symm
    · intro hzero
      refine ⟨last, ?_, hlast⟩
      rw [hread, Piece.meaning, hzero]

end Characters

/-! ## Constants in a line -/

section Constants

variable {self : FinshToken} {blanks rest : List Char} {piece : Piece} {pieces : List Piece}

def opened (self : FinshToken) : FinshToken := (tokenTrimSpace self).unnamed.advance 1

/-- The token has what the string constant means in C. -/
def StringDecoded (self : FinshToken) (pieces : List Piece) (rest : List Char) : Prop :=
  ∃ last, stringLoop FINSH_STRING_MAX [] (opened self) =
      some (bodyMeaning pieces ++ ['\x00'], last, .ok) ∧
    tokenRun self = some ({ last with
      string := writeBuffer (bodyMeaning pieces ++ ['\x00']) last.string
      currentToken := .valueString }, .ok) ∧
    last.remaining = rest

def CharDecoded (self : FinshToken) (piece : Piece) (rest : List Char) : Prop :=
  ∃ last, tokenProcChar (opened self) = some (piece.meaning, last, .ok) ∧
    tokenRun self = some ({ last with
      value := cellPut .byte last.value (BitVec.ofNat 32 piece.meaning.toNat)
      currentToken := .valueChar }, .ok) ∧
    last.remaining = rest

theorem tokenRun_string (hrem : self.remaining = blanks ++ '"' :: rest)
    (hblanks : ∀ b ∈ blanks, isBlank b) : (opened self).remaining = rest ∧
      tokenRun self = (tokenProcString (opened self)).map fun read =>
        ({ read.1 with currentToken := .valueString }, read.2) := by
  obtain ⟨hstart, hrun⟩ := tokenRun_separator hrem hblanks (by decide) (by decide)
  refine ⟨remaining_advance_one hstart, ?_⟩
  rw [hrun, tokenOperator, tokenNextChar_of_remaining hstart]
  change (tokenProcString (opened self)).bind _ = _
  cases tokenProcString (opened self) <;> rfl

theorem tokenRun_char (hrem : self.remaining = blanks ++ '\'' :: rest)
    (hblanks : ∀ b ∈ blanks, isBlank b) : (opened self).remaining = rest ∧
      tokenRun self = (tokenProcChar (opened self)).map fun read =>
        ({ read.2.1 with
          value := cellPut .byte read.2.1.value (BitVec.ofNat 32 read.1.toNat)
          currentToken := .valueChar }, read.2.2) := by
  obtain ⟨hstart, hrun⟩ := tokenRun_separator hrem hblanks (by decide) (by decide)
  refine ⟨remaining_advance_one hstart, ?_⟩
  rw [hrun, tokenOperator, tokenNextChar_of_remaining hstart]
  change (tokenProcChar (opened self)).bind _ = _
  cases tokenProcChar (opened self) <;> rfl

theorem stringDecoded_iff (hblanks : ∀ b ∈ blanks, isBlank b) (hbody : IsBody '"' pieces)
    (hrem : self.remaining = blanks ++ '"' :: quoted pieces rest) :
    StringDecoded self pieces rest ↔ pieces.length < FINSH_STRING_MAX ∧ StringSafe pieces := by
  obtain ⟨hopened, hrun⟩ := tokenRun_string hrem hblanks
  have hstores := (stores_decoded hbody).1 FINSH_STRING_MAX [] (opened self) hopened
  have hlength : (bodyMeaning pieces).length = pieces.length := by simp [bodyMeaning]
  rw [← decoded_eq_iff hbody]
  constructor
  · rintro ⟨last, hloop, -, -⟩
    have hfits : (decoded none pieces).length < FINSH_STRING_MAX := by
      by_contra hlong
      rw [hstores.full (Nat.le_of_not_lt hlong)] at hloop
      cases hloop
    obtain ⟨last', hloop', -⟩ := hstores.fits hfits
    have hsame := (Prod.mk.inj (Option.some.inj (hloop'.symm.trans hloop))).1
    rw [nil_append] at hsame
    have hdecoded := append_cancel_right hsame
    rw [hdecoded, hlength] at hfits
    exact ⟨hfits, hdecoded⟩
  · rintro ⟨hfits, hdecoded⟩
    rw [hdecoded] at hstores
    obtain ⟨last, hloop, hlast⟩ := hstores.fits (by omega)
    refine ⟨last, hloop, ?_, hlast⟩
    rw [hrun, tokenProcString, hloop]
    rfl

theorem charDecoded_iff (hblanks : ∀ b ∈ blanks, isBlank b) (hvalid : piece.Valid '\'')
    (hrem : self.remaining = blanks ++ '\'' :: (piece.text ++ '\'' :: rest)) :
    CharDecoded self piece rest ↔ piece.CharSafe := by
  obtain ⟨hopened, hrun⟩ := tokenRun_char hrem hblanks
  rw [← tokenProcChar_iff hvalid hopened]
  constructor
  · rintro ⟨last, hread, -, hlast⟩
    exact ⟨last, hread, hlast⟩
  · rintro ⟨last, hread, hlast⟩
    refine ⟨last, hread, ?_, hlast⟩
    rw [hrun, hread]
    rfl

/-- String and character constants get the meaning that C gives them exactly when their pieces
are safe and a string fits in the buffer. -/
theorem constants_decoded_iff (hblanks : ∀ b ∈ blanks, isBlank b) :
    (∀ pieces, IsBody '"' pieces → self.remaining = blanks ++ '"' :: quoted pieces rest →
      (StringDecoded self pieces rest ↔ pieces.length < FINSH_STRING_MAX ∧ StringSafe pieces)) ∧
    ∀ piece : Piece, piece.Valid '\'' →
      self.remaining = blanks ++ '\'' :: (piece.text ++ '\'' :: rest) →
      (CharDecoded self piece rest ↔ piece.CharSafe) :=
  ⟨fun _ hbody hrem => stringDecoded_iff hblanks hbody hrem,
    fun _ hvalid hrem => charDecoded_iff hblanks hvalid hrem⟩

theorem constants_decoded :
    StringDecoded (finshTokenInit ['"', 'a', '\\', 'n', '"', ';']) [.plain 'a', .letter .n] [';'] ∧
      CharDecoded (finshTokenInit [' ', '\'', '\\', 't', '\'', ';']) (.letter .t) [';'] := by
  have hstring := (@constants_decoded_iff
    (finshTokenInit ['"', 'a', '\\', 'n', '"', ';']) [] [';'] (by simp)).1
    [.plain 'a', .letter .n] (by simp [IsBody, Piece.Valid, Piece.Ends]) rfl
  have hchar := (@constants_decoded_iff
    (finshTokenInit [' ', '\'', '\\', 't', '\'', ';']) [' '] [';'] (by simp [isBlank])).2
    (.letter .t) trivial rfl
  exact ⟨hstring.mpr ⟨by decide, trivial, trivial, trivial⟩, hchar.mpr ⟨by decide, by decide⟩⟩

/-- An escaped backslash becomes a zero byte. -/
theorem backslash_lost :
    ¬∀ (self : FinshToken) (pieces : List Piece) (rest : List Char), IsBody '"' pieces →
      pieces.length < FINSH_STRING_MAX → self.remaining = '"' :: quoted pieces rest →
      StringDecoded self pieces rest := by
  intro h
  have hdecoded := h (finshTokenInit ['"', '\\', '\\', '"', ';']) [.backslash] [';']
    (by simp [IsBody, Piece.Valid, Piece.Ends]) (by decide) rfl
  have hsafe := (@stringDecoded_iff (finshTokenInit ['"', '\\', '\\', '"', ';']) [] [';']
    [.backslash] (by simp) (by simp [IsBody, Piece.Valid, Piece.Ends]) rfl).mp hdecoded
  exact hsafe.2.1

end Constants

end RtThread.Finsh
