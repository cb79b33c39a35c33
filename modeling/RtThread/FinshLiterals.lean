import RtThread.FinshScan
import RtThread.Numerals

/-!
# Integer literals

The literals the comment on `token_proc_number` names: decimal, or `0` with
octal digits, `0x` with hexadecimal or `0b` with binary digits, each with an
optional suffix.  The tokenizer reads hexadecimal digits as any letters and
octal digits as any decimal ones; the theorem says which literals it reads
rightly for all that.
-/

namespace RtThread.Finsh

open List Option

inductive LiteralBase
  | decimal
  | octal
  | hex (upper : Bool)
  | binary (upper : Bool)
  deriving DecidableEq

namespace LiteralBase

def marker : LiteralBase → List Char
  | decimal => []
  | octal => ['0']
  | hex upper => ['0', if upper then 'X' else 'x']
  | binary upper => ['0', if upper then 'B' else 'b']

def radix : LiteralBase → ℕ
  | decimal => 10
  | octal => 8
  | hex _ => 16
  | binary _ => 2

def IsDigit (base : LiteralBase) (ch : Char) : Prop :=
  ∃ d < base.radix, Numerals.digitValue ch = some d

def WellFormed : LiteralBase → List Char → Prop
  | decimal, digits => digits ≠ [] ∧ digits.head? ≠ some '0'
  | octal, _ => True
  | hex _, digits => digits ≠ []
  | binary _, digits => digits ≠ []

end LiteralBase

structure Literal where
  base : LiteralBase
  digits : List Char
  suffix : Option Char
  isDigit : ∀ ch ∈ digits, base.IsDigit ch
  wellFormed : base.WellFormed digits
  isSuffix : ∀ ch ∈ suffix, ch = 'l' ∨ ch = 'L'

namespace Literal

def text (lit : Literal) : List Char := lit.base.marker ++ (lit.digits ++ lit.suffix.toList)

def value (lit : Literal) : ℕ :=
  lit.digits.foldl (fun n ch => n * lit.base.radix + (Numerals.digitValue ch).getD 0) 0

/-- The text cannot be read as a longer literal. -/
def Maximal (lit : Literal) (rest : List Char) : Prop :=
  ∀ other : Literal, other.text <+: lit.text ++ rest → other.text.length ≤ lit.text.length

/-- The token is the literal, and the rest of the line is left. -/
def Read (lit : Literal) (self : FinshToken) (rest : List Char) : Prop :=
  ∃ next, tokenRun self = some (next, .ok) ∧ next.value = BitVec.ofNat 32 lit.value ∧
    next.currentToken = (if lit.suffix.isSome then .valueLong else .valueInt) ∧
    next.remaining = rest

/-- The literals that are read rightly: the digits behind a marker fit in the buffer; behind an
octal literal stands no decimal digit, nor a letter that makes it the marker of another base;
a hexadecimal literal has no suffix and no letter behind it. -/
def Safe (lit : Literal) (rest : List Char) : Prop :=
  (lit.base ≠ .decimal → lit.digits.length < 128) ∧ match lit.base with
    | .decimal => True
    | .octal => lit.suffix = none → ∀ ch ∈ rest.head?, ch ≠ '8' ∧ ch ≠ '9' ∧
        (lit.digits = [] → ch ∉ ['x', 'X', 'b', 'B'])
    | .hex _ => lit.suffix = none ∧ ∀ ch ∈ rest.head?, ¬ch.isAlpha
    | .binary _ => True

end Literal

section Numbers

variable {self : FinshToken} {ch : Char} {chars rest : List Char} {p : Char → Bool}
  {shift : ℕ} {value : BitVec 32}

def tokenNumberEnd (value : BitVec 32) (next : Char × FinshToken) : FinshToken :=
  if next.1 = 'l' ∨ next.1 = 'L' then
    { next.2 with value := value, currentToken := .valueLong }
  else { tokenPrevChar next.2 with value := value, currentToken := .valueInt }

def tokenNumberDigits (self : FinshToken) : Option (BitVec 32 × Char × FinshToken) :=
  let (ch, next) := tokenNextChar self
  if ch = '0' then
    let (b, digits) := tokenNextChar next
    if b = 'x' ∨ b = 'X' then
      specNumber 4 (fun ch => ch.isDigit || ch.isAlpha) (tokenNextChar digits)
    else if b = 'b' ∨ b = 'B' then
      specNumber 1 (fun ch => ch == '0' || ch == '1') (tokenNextChar digits)
    else specNumber 3 Char.isDigit (b, digits)
  else
    let (chars, ch, last) := scanWhile Char.isDigit (ch, next)
    some (decimalValue chars, ch, last)

theorem tokenProcNumber_eq (self : FinshToken) : tokenProcNumber self =
      (tokenNumberDigits self).map fun digits => tokenNumberEnd digits.1 digits.2 := by
  have hend : ∀ digits : Option (BitVec 32 × Char × FinshToken),
      (digits.bind fun d =>
        if d.2.1 = 'l' ∨ d.2.1 = 'L' then
          some { d.2.2 with value := d.1, currentToken := .valueLong }
        else some { tokenPrevChar d.2.2 with value := d.1, currentToken := .valueInt }) =
        digits.map fun digits => tokenNumberEnd digits.1 digits.2 := by
    intro digits
    cases digits with
    | none => rfl
    | some digits =>
      rw [map_some, tokenNumberEnd, apply_ite some]
      rfl
  rw [← hend]
  unfold tokenProcNumber tokenNumberDigits
  dsimp only
  split_ifs <;> rfl

theorem specNumber_tokenNextChar (hzero : p '\x00' = false) :
    specNumber shift p (tokenNextChar self) =
      if (self.remaining.takeWhile p).length < 128 then
        some (tokenSpecNumber shift (self.remaining.takeWhile p),
          tokenNextChar (self.advance (self.remaining.takeWhile p).length))
      else none := by
  rw [specNumber, scanWhile_tokenNextChar hzero]

theorem tokenNumberEnd_value (next : Char × FinshToken) :
    (tokenNumberEnd value next).value = value := by
  unfold tokenNumberEnd
  split_ifs <;> rfl

theorem tokenNumberEnd_currentToken : (tokenNumberEnd value (tokenNextChar self)).currentToken =
      if self.remaining.head? = some 'l' ∨ self.remaining.head? = some 'L' then .valueLong
      else .valueInt := by
  unfold tokenNumberEnd
  cases hrem : self.remaining with
  | nil => simp [tokenNextChar_of_end hrem]
  | cons ch rest =>
    rw [tokenNextChar_of_remaining hrem]
    simp only [head?_cons, some.injEq]
    split_ifs <;> rfl

theorem tokenNumberEnd_remaining : (tokenNumberEnd value (tokenNextChar self)).remaining =
      if self.remaining.head? = some 'l' ∨ self.remaining.head? = some 'L' then
        self.remaining.tail
      else self.remaining := by
  have hback : (tokenPrevChar (tokenNextChar self).2).remaining = self.remaining := by
    rw [tokenPrevChar_tokenNextChar, remaining_peeked]
  have hnext := remaining_tokenNextChar self
  unfold tokenNumberEnd
  cases hrem : self.remaining with
  | nil =>
    have hnone : ¬((tokenNextChar self).1 = 'l' ∨ (tokenNextChar self).1 = 'L') := by
      rw [tokenNextChar_fst, hrem]
      decide
    rw [if_neg hnone]
    exact hback.trans hrem
  | cons ch rest =>
    rw [hrem] at hback hnext
    simp only [tokenNextChar_fst, hrem, headD_cons, head?_cons, some.injEq]
    split_ifs
    · exact hnext
    · exact hback

end Numbers

namespace LiteralBase

def scans : LiteralBase → Char → Bool
  | decimal => Char.isDigit
  | octal => Char.isDigit
  | hex _ => fun ch => ch.isDigit || ch.isAlpha
  | binary _ => fun ch => ch == '0' || ch == '1'

def scanned : LiteralBase → List Char → BitVec 32
  | decimal, chars => decimalValue chars
  | octal, chars => tokenSpecNumber 3 chars
  | hex _, chars => tokenSpecNumber 4 chars
  | binary _, chars => tokenSpecNumber 1 chars

def Enters : LiteralBase → List Char → Prop
  | decimal, body => body.head? ≠ some '0'
  | octal, body => ∀ ch ∈ body.head?, ch ∉ ['x', 'X', 'b', 'B']
  | hex _, _ => True
  | binary _, _ => True

variable {self : FinshToken} {base : LiteralBase} {body : List Char} {ch : Char}

theorem scans_zero (base : LiteralBase) : base.scans '\x00' = false := by
  cases base <;> rfl

theorem advance_two {x : Char} (hrem : self.remaining = '0' :: x :: body) :
    tokenNextChar (self.advance 1) = (x, self.advance 2) ∧ (self.advance 2).remaining = body := by
  have hnext := remaining_advance_one hrem
  exact ⟨tokenNextChar_of_remaining hnext, remaining_advance_one hnext⟩

theorem tokenNumberDigits_body (hrem : self.remaining = base.marker ++ body)
    (henters : base.Enters body) : tokenNumberDigits self =
      if base = decimal ∨ (body.takeWhile base.scans).length < 128 then
        some (base.scanned (body.takeWhile base.scans), tokenNextChar (self.advance
            (base.marker.length + (body.takeWhile base.scans).length)))
      else none := by
  have hzero := base.scans_zero
  unfold tokenNumberDigits
  cases base with
  | decimal =>
    change self.remaining = body at hrem
    have hscan : scanWhile Char.isDigit (tokenNextChar self) = _ := scanWhile_tokenNextChar hzero
    have hne : (tokenNextChar self).1 ≠ '0' := by
      rw [tokenNextChar_fst, hrem]
      cases body with
      | nil => decide
      | cons ch rest => simpa [Enters] using henters
    rw [hrem] at hscan
    simp [hne, hscan, marker, scans, scanned]
  | octal =>
    have hbody := remaining_advance_one hrem
    have hscan : specNumber 3 Char.isDigit (tokenNextChar (self.advance 1)) = _ :=
      specNumber_tokenNextChar hzero
    have hmark : (tokenNextChar (self.advance 1)).1 ∉ ['x', 'X', 'b', 'B'] := by
      rw [tokenNextChar_fst, hbody]
      cases body with
      | nil => decide
      | cons ch rest => exact henters ch rfl
    simp only [mem_cons, not_mem_nil, or_false, not_or] at hmark
    rw [hbody] at hscan
    simp [tokenNextChar_of_remaining hrem, hmark, hscan, marker, scans, scanned]
  | hex upper =>
    obtain ⟨hmark, hbody⟩ := advance_two hrem
    have hscan : specNumber 4 (fun ch => ch.isDigit || ch.isAlpha)
        (tokenNextChar (self.advance 2)) = _ :=
      specNumber_tokenNextChar hzero
    rw [hbody] at hscan
    cases upper <;> simp [tokenNextChar_of_remaining hrem, hmark, hscan, marker, scans, scanned]
  | binary upper =>
    obtain ⟨hmark, hbody⟩ := advance_two hrem
    have hscan : specNumber 1 (fun ch => ch == '0' || ch == '1')
        (tokenNextChar (self.advance 2)) = _ :=
      specNumber_tokenNextChar hzero
    rw [hbody] at hscan
    cases upper <;> simp [tokenNextChar_of_remaining hrem, hmark, hscan, marker, scans, scanned]

theorem tokenProcNumber_body (hrem : self.remaining = base.marker ++ body)
    (henters : base.Enters body) : tokenProcNumber self = none ∧ base ≠ decimal ∧
        128 ≤ (body.takeWhile base.scans).length ∨ ∃ next, tokenProcNumber self = some next ∧
        (base ≠ decimal → (body.takeWhile base.scans).length < 128) ∧
        next.value = base.scanned (body.takeWhile base.scans) ∧ next.currentToken =
          (if (body.dropWhile base.scans).head? = some 'l' ∨
              (body.dropWhile base.scans).head? = some 'L' then .valueLong else .valueInt) ∧
        next.remaining =
          if (body.dropWhile base.scans).head? = some 'l' ∨
              (body.dropWhile base.scans).head? = some 'L' then (body.dropWhile base.scans).tail
          else body.dropWhile base.scans := by
  rw [tokenProcNumber_eq, tokenNumberDigits_body hrem henters]
  have hleft : (self.advance (base.marker.length + (body.takeWhile base.scans).length)).remaining =
      body.dropWhile base.scans := by
    rw [← length_append]
    apply remaining_advance
    rw [hrem, append_assoc, takeWhile_append_dropWhile]
  by_cases hfits : base = decimal ∨ (body.takeWhile base.scans).length < 128
  · right
    rw [if_pos hfits, map_some]
    refine ⟨_, rfl, fun hbase => hfits.resolve_left hbase, ?_, ?_, ?_⟩
    · exact tokenNumberEnd_value _
    · rw [← hleft]
      exact tokenNumberEnd_currentToken
    · rw [← hleft]
      exact tokenNumberEnd_remaining
  · left
    rw [if_neg hfits]
    push Not at hfits
    exact ⟨rfl, hfits⟩

theorem isAlpha_of_le (h : 97 ≤ ch.toNat ∧ ch.toNat ≤ 102 ∨ 65 ≤ ch.toNat ∧ ch.toNat ≤ 70) :
    ch.isAlpha = true := by
  have hval : ch.val.toNat = ch.toNat := rfl
  delta Char.isAlpha Char.isUpper Char.isLower
  simp only [Bool.or_eq_true, Bool.and_eq_true, decide_eq_true_eq, ge_iff_le,
    UInt32.le_iff_toNat_le, hval]
  rcases h with ⟨hlow, hhigh⟩ | ⟨hlow, hhigh⟩
  · exact .inr ⟨hlow, hhigh.trans (by decide)⟩
  · exact .inl ⟨hlow, hhigh.trans (by decide)⟩

theorem isDigit_cases (hdigit : base.IsDigit ch) :
    (48 ≤ ch.toNat ∧ ch.toNat ≤ 57 ∧ ch.toNat - 48 < base.radix) ∨
      base.radix = 16 ∧ (97 ≤ ch.toNat ∧ ch.toNat ≤ 102 ∨ 65 ≤ ch.toNat ∧ ch.toNat ≤ 70) := by
  obtain ⟨d, hlt, hvalue⟩ := hdigit
  have hradix : base.radix = 16 ∨ base.radix ≤ 10 := by cases base <;> simp [radix]
  obtain ⟨hlow, hhigh, rfl⟩ | ⟨hlow, hhigh, rfl⟩ | ⟨hlow, hhigh, rfl⟩ :=
    Numerals.code_of_digitValue hvalue
  · exact .inl ⟨hlow, hhigh, hlt⟩
  · exact .inr ⟨by lia, .inl ⟨hlow, hhigh⟩⟩
  · exact .inr ⟨by lia, .inr ⟨hlow, hhigh⟩⟩

theorem scans_of_isDigit (hdigit : base.IsDigit ch) : base.scans ch = true := by
  have hcases := isDigit_cases hdigit
  cases base with
  | decimal | octal =>
    rcases hcases with ⟨hlow, hhigh, -⟩ | ⟨hradix, -⟩
    · exact isDigit_iff.mpr ⟨hlow, hhigh⟩
    · cases hradix
  | hex upper =>
    rw [scans, Bool.or_eq_true]
    rcases hcases with ⟨hlow, hhigh, -⟩ | ⟨-, hletter⟩
    · exact .inl (isDigit_iff.mpr ⟨hlow, hhigh⟩)
    · exact .inr (isAlpha_of_le hletter)
  | binary upper =>
    rcases hcases with ⟨hlow, -, hlt⟩ | ⟨hradix, -⟩
    · change ch.toNat - 48 < 2 at hlt
      have hcode : ch.toNat = 48 ∨ ch.toNat = 49 := by omega
      rw [← Char.ofNat_toNat ch]
      rcases hcode with hcode | hcode <;> rw [hcode] <;> rfl
    · exact absurd hradix (by simp [radix])

theorem digitValue_of_le (hdigit : ch.toNat ≤ 57) : digitValue ch = ch.toNat - 48 := by
  have hnot : ¬('a' ≤ ch ∧ ch ≤ 'f') ∧ ¬('A' ≤ ch ∧ ch ≤ 'F') := by
    constructor
    · rintro ⟨hlow, -⟩
      change 97 ≤ ch.toNat at hlow
      omega
    · rintro ⟨hlow, -⟩
      change 65 ≤ ch.toNat at hlow
      omega
  rw [digitValue, if_neg hnot.1, if_neg hnot.2]

theorem digitValue_of_isDigit (hdigit : base.IsDigit ch) :
    (Numerals.digitValue ch).getD 0 = digitValue ch ∧ digitValue ch < base.radix := by
  obtain ⟨d, hlt, hvalue⟩ := hdigit
  have hsame : digitValue ch = d := by
    unfold Numerals.digitValue at hvalue
    unfold digitValue
    split_ifs at hvalue with hdecimal hlower hupper
    · change 48 ≤ ch.toNat ∧ ch.toNat ≤ 57 at hdecimal
      have hcode := digitValue_of_le hdecimal.2
      unfold digitValue at hcode
      rw [hcode]
      exact some.inj hvalue
    · rw [if_pos hlower]
      change 97 ≤ ch.toNat ∧ ch.toNat ≤ 102 at hlower
      lia
    · rw [if_neg hlower, if_pos hupper]
      change 65 ≤ ch.toNat ∧ ch.toNat ≤ 70 at hupper
      lia
  rw [hvalue, hsame]
  exact ⟨rfl, hlt⟩

theorem shift_or_digit (n d shift : ℕ) (hd : d < 2 ^ shift) :
    (BitVec.ofNat 32 n <<< shift) ||| BitVec.ofNat 32 d = BitVec.ofNat 32 (n * 2 ^ shift + d) := by
  have hshift : BitVec.ofNat 32 n <<< shift = BitVec.ofNat 32 (n <<< shift) := by
    apply BitVec.eq_of_toNat_eq
    simp [Nat.shiftLeft_eq, Nat.mod_mul_mod]
  rw [hshift, ← BitVec.ofNat_or, ← Nat.shiftLeft_add_eq_or_of_lt hd, Nat.shiftLeft_eq]

theorem shifted_digits {digits : List Char} {shift : ℕ} (hradix : base.radix = 2 ^ shift)
    (hdigits : ∀ ch ∈ digits, base.IsDigit ch) (n : ℕ) :
    digits.foldl (fun (v : BitVec 32) ch => (v <<< shift) ||| BitVec.ofNat 32 (digitValue ch))
        (BitVec.ofNat 32 n) = BitVec.ofNat 32
      (digits.foldl (fun n ch => n * base.radix + (Numerals.digitValue ch).getD 0) n) := by
  induction digits generalizing n with
  | nil => rfl
  | cons ch digits ih =>
    obtain ⟨hvalue, hlt⟩ := digitValue_of_isDigit (hdigits ch mem_cons_self)
    rw [hradix] at hlt
    rw [foldl_cons, foldl_cons, shift_or_digit _ _ _ hlt, hvalue, hradix]
    have hrest := ih (fun ch hch => hdigits ch (mem_cons_of_mem _ hch))
      (n * 2 ^ shift + digitValue ch)
    rwa [hradix] at hrest

theorem decimal_digits {digits : List Char} (hdigits : ∀ ch ∈ digits, decimal.IsDigit ch) (n : ℕ) :
    digits.foldl (fun value ch => value * 10 + BitVec.ofNat 32 (ch.toNat - 48))
        (BitVec.ofNat 32 n) = BitVec.ofNat 32
      (digits.foldl (fun n ch => n * 10 + (Numerals.digitValue ch).getD 0) n) := by
  induction digits generalizing n with
  | nil => rfl
  | cons ch digits ih =>
    have hdigit := hdigits ch mem_cons_self
    have hcode : digitValue ch = ch.toNat - 48 := by
      rcases isDigit_cases hdigit with ⟨-, hhigh, -⟩ | ⟨hradix, -⟩
      · exact digitValue_of_le hhigh
      · cases hradix
    have hround : BitVec.ofNat 32 n * 10 + BitVec.ofNat 32 (ch.toNat - 48) =
        BitVec.ofNat 32 (n * 10 + (ch.toNat - 48)) := by
      rw [BitVec.ofNat_add, BitVec.ofNat_mul]
      rfl
    rw [foldl_cons, foldl_cons, (digitValue_of_isDigit hdigit).1, hcode, hround]
    exact ih (fun ch hch => hdigits ch (mem_cons_of_mem _ hch)) _

theorem scanned_digits {digits : List Char} (hdigits : ∀ ch ∈ digits, base.IsDigit ch) :
    base.scanned digits = BitVec.ofNat 32
      (digits.foldl (fun n ch => n * base.radix + (Numerals.digitValue ch).getD 0) 0) := by
  cases base with
  | decimal => exact decimal_digits hdigits 0
  | octal => exact shifted_digits (rfl : octal.radix = 2 ^ 3) hdigits 0
  | hex upper => exact shifted_digits (rfl : (hex upper).radix = 2 ^ 4) hdigits 0
  | binary upper => exact shifted_digits (rfl : (binary upper).radix = 2 ^ 1) hdigits 0

end LiteralBase

namespace Literal

variable {lit : Literal} {self : FinshToken} {blanks rest : List Char} {ch : Char}

theorem Maximal.next (hmax : lit.Maximal rest) (hsuffix : lit.suffix = none)
    (hnext : rest.head? = some ch) : ¬lit.base.IsDigit ch ∧ ch ≠ 'l' ∧ ch ≠ 'L' := by
  obtain ⟨rest, rfl⟩ : ∃ tail, rest = ch :: tail := by
    cases rest with
    | nil => cases hnext
    | cons c tail => exact ⟨tail, by rw [some.inj hnext]⟩
  have hend : ¬(ch = 'l' ∨ ch = 'L') := by
    intro hch
    let other : Literal := { lit with
      suffix := some ch
      isSuffix := by rintro c ⟨⟩; exact hch }
    have hlength := hmax other ⟨rest, by simp [other, text, hsuffix]⟩
    simp [other, text, hsuffix] at hlength
  refine ⟨fun hdigit => ?_, fun h => hend (.inl h), fun h => hend (.inr h)⟩
  have hformed : lit.base.WellFormed (lit.digits ++ [ch]) := by
    have hbefore := lit.wellFormed
    cases hbase : lit.base with
    | decimal =>
      rw [hbase] at hbefore
      refine ⟨by simp, ?_⟩
      rw [head?_append_of_ne_nil _ hbefore.1]
      exact hbefore.2
    | octal => trivial
    | hex upper | binary upper => simp [LiteralBase.WellFormed]
  let other : Literal := { lit with
    digits := lit.digits ++ [ch]
    isDigit := by
      intro c hc
      rcases mem_append.mp hc with hold | hnew
      · exact lit.isDigit c hold
      · rw [mem_singleton.mp hnew]
        exact hdigit
    wellFormed := hformed }
  have hlength := hmax other ⟨rest, by simp [other, text, hsuffix]⟩
  simp [other, text, hsuffix] at hlength

theorem tokenRun_literal (hrem : self.remaining = blanks ++ (lit.text ++ rest))
    (hblanks : ∀ b ∈ blanks, isBlank b) : ∃ start : FinshToken,
      start.remaining = lit.base.marker ++ (lit.digits ++ (lit.suffix.toList ++ rest)) ∧
      tokenRun self = (tokenProcNumber start).map (·, FinshError.ok) := by
  have hfirst : ∃ ch tail, lit.text ++ rest = ch :: tail ∧ ch.isDigit = true := by
    have hformed := lit.wellFormed
    unfold text
    cases hbase : lit.base with
    | decimal =>
      rw [hbase] at hformed
      obtain ⟨ch, digits, hdigits⟩ := exists_cons_of_ne_nil hformed.1
      have hdigit := lit.isDigit ch (by simp [hdigits])
      rw [hbase] at hdigit
      exact ⟨ch, _, by simp [hdigits, LiteralBase.marker]; rfl, LiteralBase.scans_of_isDigit hdigit⟩
    | octal | hex upper | binary upper => exact ⟨'0', _, rfl, rfl⟩
  obtain ⟨ch, tail, htext, hdigit⟩ := hfirst
  rw [htext] at hrem
  obtain ⟨start, hstart, hrun⟩ := tokenRun_digit hrem hblanks hdigit
  refine ⟨start, ?_, hrun⟩
  rw [hstart, ← htext, text, append_assoc, append_assoc]

theorem digitValue_of_isDigit_char (hdigit : ch.isDigit = true) :
    Numerals.digitValue ch = some (ch.toNat - 48) ∧ 48 ≤ ch.toNat ∧ ch.toNat ≤ 57 := by
  have hrange := isDigit_iff.mp hdigit
  exact ⟨Numerals.digitValue_decimal hrange.1 hrange.2, hrange⟩

theorem scans_digits (lit : Literal) : ∀ ch ∈ lit.digits, lit.base.scans ch = true :=
  fun ch hch => LiteralBase.scans_of_isDigit (lit.isDigit ch hch)

theorem scans_behind (hmax : lit.Maximal rest) (hsafe : lit.Safe rest) :
    ∀ c ∈ (lit.suffix.toList ++ rest).head?, lit.base.scans c = false := by
  intro c hc
  cases hsuffix : lit.suffix with
  | some l =>
    rw [hsuffix] at hc
    obtain rfl : l = c := some.inj hc
    have hl := lit.isSuffix l hsuffix
    have hshape := hsafe.2
    cases hbase : lit.base with
    | decimal | octal => rcases hl with rfl | rfl <;> rfl
    | hex upper =>
      rw [hbase] at hshape
      nomatch hsuffix.symm.trans hshape.1
    | binary upper => rcases hl with rfl | rfl <;> rfl
  | none =>
    rw [hsuffix] at hc
    have hnext : rest.head? = some c := hc
    obtain ⟨hnot, -, -⟩ := hmax.next hsuffix hnext
    have hshape := hsafe.2
    by_contra hscans
    rw [Bool.not_eq_false] at hscans
    cases hbase : lit.base with
    | decimal =>
      rw [hbase] at hnot hscans
      obtain ⟨hvalue, -, hhigh⟩ := digitValue_of_isDigit_char hscans
      exact hnot ⟨_, by change _ < 10; lia, hvalue⟩
    | octal =>
      rw [hbase] at hnot hscans hshape
      obtain ⟨hvalue, -, hhigh⟩ := digitValue_of_isDigit_char hscans
      obtain ⟨height, hnine, -⟩ := hshape hsuffix c hnext
      have hcode : ∀ n, c.toNat = n → c = Char.ofNat n := by
        rintro n rfl
        exact (Char.ofNat_toNat c).symm
      have hsmall : c.toNat ≠ 56 ∧ c.toNat ≠ 57 :=
        ⟨fun h => height (hcode _ h), fun h => hnine (hcode _ h)⟩
      exact hnot ⟨_, by change _ < 8; lia, hvalue⟩
    | hex upper =>
      rw [hbase] at hnot hscans hshape
      have hletter := hshape.2 c hnext
      simp only [LiteralBase.scans, Bool.or_eq_true] at hscans
      obtain ⟨hvalue, -, hhigh⟩ := digitValue_of_isDigit_char (hscans.resolve_right hletter)
      exact hnot ⟨_, by change _ < 16; lia, hvalue⟩
    | binary upper =>
      rw [hbase] at hnot hscans
      simp only [LiteralBase.scans, Bool.or_eq_true, beq_iff_eq] at hscans
      rcases hscans with rfl | rfl
      · exact hnot ⟨0, by simp [LiteralBase.radix], rfl⟩
      · exact hnot ⟨1, by simp [LiteralBase.radix], rfl⟩

theorem enters_of_next (hnext : lit.base = .octal → lit.digits = [] → lit.suffix = none →
      ∀ c ∈ rest.head?, c ∉ ['x', 'X', 'b', 'B']) :
    lit.base.Enters (lit.digits ++ (lit.suffix.toList ++ rest)) := by
  have hformed := lit.wellFormed
  have hdigits := lit.isDigit
  cases hbase : lit.base with
  | decimal =>
    rw [hbase] at hformed
    change List.head? _ ≠ _
    rw [head?_append_of_ne_nil _ hformed.1]
    exact hformed.2
  | octal =>
    rw [hbase] at hdigits
    intro c hc
    cases hlist : lit.digits with
    | cons d digits =>
      rw [hlist] at hc
      obtain rfl : d = c := some.inj hc
      have hdigit := LiteralBase.scans_of_isDigit (hdigits d (by simp [hlist]))
      intro hmem
      simp only [mem_cons, not_mem_nil, or_false] at hmem
      rcases hmem with rfl | rfl | rfl | rfl <;> cases hdigit
    | nil =>
      rw [hlist] at hc
      cases hsuffix : lit.suffix with
      | some l =>
        rw [hsuffix] at hc
        obtain rfl : l = c := some.inj hc
        rcases lit.isSuffix l hsuffix with rfl | rfl <;> decide
      | none =>
        rw [hsuffix] at hc
        exact hnext hbase hlist hsuffix c hc
  | hex upper | binary upper => trivial

theorem enters_of_safe (hsafe : lit.Safe rest) :
    lit.base.Enters (lit.digits ++ (lit.suffix.toList ++ rest)) := by
  apply enters_of_next
  intro hbase hdigits hsuffix c hc
  have hshape := hsafe.2
  rw [hbase] at hshape
  exact (hshape hsuffix c hc).2.2 hdigits

theorem suffix_head (hmax : lit.Maximal rest) : ((lit.suffix.toList ++ rest).head? = some 'l' ∨
      (lit.suffix.toList ++ rest).head? = some 'L') ↔ lit.suffix.isSome := by
  cases hsuffix : lit.suffix with
  | some l => exact iff_of_true (by simpa using lit.isSuffix l hsuffix) rfl
  | none =>
    refine iff_of_false ?_ (by simp)
    rintro (hnext | hnext)
    · exact (hmax.next hsuffix hnext).2.1 rfl
    · exact (hmax.next hsuffix hnext).2.2 rfl

theorem read_of_safe (hrem : self.remaining = blanks ++ (lit.text ++ rest))
    (hblanks : ∀ b ∈ blanks, isBlank b) (hmax : lit.Maximal rest) (hsafe : lit.Safe rest) :
    lit.Read self rest := by
  obtain ⟨start, hstart, hrun⟩ := tokenRun_literal hrem hblanks
  have hbehind := scans_behind hmax hsafe
  have htake : (lit.digits ++ (lit.suffix.toList ++ rest)).takeWhile lit.base.scans =
      lit.digits :=
    takeWhile_append lit.scans_digits hbehind
  have hdrop : (lit.digits ++ (lit.suffix.toList ++ rest)).dropWhile lit.base.scans =
      lit.suffix.toList ++ rest := by
    have hparts : (lit.digits ++ (lit.suffix.toList ++ rest)).takeWhile lit.base.scans ++ _ = _ :=
      takeWhile_append_dropWhile
    rw [htake] at hparts
    exact append_cancel_left hparts
  rcases LiteralBase.tokenProcNumber_body hstart (enters_of_safe hsafe) with
    ⟨-, hbase, hlong⟩ | ⟨next, hnext, -, hvalue, htype, hleft⟩
  · rw [htake] at hlong
    exact absurd (hsafe.1 hbase) (by omega)
  · rw [htake] at hvalue
    rw [hdrop] at htype hleft
    refine ⟨next, by rw [hrun, hnext]; rfl, ?_, ?_, ?_⟩
    · rw [hvalue, LiteralBase.scanned_digits lit.isDigit]
      rfl
    · rw [htype, if_congr (suffix_head hmax) rfl rfl]
    · rw [hleft, if_congr (suffix_head hmax) rfl rfl]
      cases lit.suffix <;> rfl

theorem not_read_of_shorter {start : FinshToken} {base : LiteralBase} {body : List Char}
    (hrun : tokenRun self = (tokenProcNumber start).map (·, FinshError.ok))
    (hstart : start.remaining = base.marker ++ body) (henters : base.Enters body)
    (hshort : (body.dropWhile base.scans).length < rest.length) : ¬lit.Read self rest := by
  rintro ⟨next, hnext, -, -, hleft⟩
  rcases LiteralBase.tokenProcNumber_body hstart henters with
    ⟨hnone, -, -⟩ | ⟨last, hlast, -, -, -, hrest⟩
  · rw [hrun, hnone] at hnext
    cases hnext
  · rw [hrun, hlast] at hnext
    obtain ⟨rfl, -⟩ := Prod.mk.inj (some.inj hnext)
    have hlength := congrArg List.length (hrest.symm.trans hleft)
    split_ifs at hlength
    · rw [length_tail] at hlength
      omega
    · omega

theorem length_dropWhile_lt {c : Char} {tail : List Char} {p : Char → Bool} (hp : p c = true) :
    ((c :: tail).dropWhile p).length < (c :: tail).length := by
  rw [dropWhile_cons_of_pos hp, length_cons]
  exact Nat.lt_succ_of_le (dropWhile_sublist p).length_le

theorem enters_of_read {start : FinshToken}
    (hrun : tokenRun self = (tokenProcNumber start).map (·, FinshError.ok))
    (hstart : start.remaining = lit.base.marker ++ (lit.digits ++ (lit.suffix.toList ++ rest)))
    (hread : lit.Read self rest) : lit.base.Enters (lit.digits ++ (lit.suffix.toList ++ rest)) := by
  apply enters_of_next
  intro hbase hdigits hsuffix c hc hmem
  obtain ⟨tail, rfl⟩ : ∃ tail, rest = c :: tail := head?_eq_some_iff.mp hc
  rw [hbase, hdigits, hsuffix] at hstart
  have hlength : ∀ p : Char → Bool, (tail.dropWhile p).length < (c :: tail).length :=
    fun p => Nat.lt_succ_of_le (dropWhile_sublist p).length_le
  have hother : ∃ base : LiteralBase, base.marker = ['0', c] ∧ ∀ body, base.Enters body := by
    simp only [mem_cons, not_mem_nil, or_false] at hmem
    rcases hmem with rfl | rfl | rfl | rfl
    · exact ⟨.hex false, rfl, fun _ => trivial⟩
    · exact ⟨.hex true, rfl, fun _ => trivial⟩
    · exact ⟨.binary false, rfl, fun _ => trivial⟩
    · exact ⟨.binary true, rfl, fun _ => trivial⟩
  obtain ⟨base, hmarker, henters⟩ := hother
  have hbody : start.remaining = base.marker ++ tail := by
    rw [hmarker]
    exact hstart
  exact not_read_of_shorter hrun hbody (henters tail) (hlength _) hread

theorem not_scans_of_read {start : FinshToken}
    (hrun : tokenRun self = (tokenProcNumber start).map (·, FinshError.ok))
    (hstart : start.remaining = lit.base.marker ++ (lit.digits ++ (lit.suffix.toList ++ rest)))
    (hread : lit.Read self rest) (hsuffix : lit.suffix = none) :
    ∀ c ∈ rest.head?, lit.base.scans c = false := by
  have henters := enters_of_read hrun hstart hread
  have hdrop : (lit.digits ++ (lit.suffix.toList ++ rest)).dropWhile lit.base.scans =
      (lit.suffix.toList ++ rest).dropWhile lit.base.scans :=
    dropWhile_append_of_pos lit.scans_digits
  intro c hc
  by_contra hscans
  obtain ⟨tail, rfl⟩ : ∃ tail, rest = c :: tail := head?_eq_some_iff.mp hc
  refine not_read_of_shorter hrun hstart henters ?_ hread
  rw [hdrop, hsuffix]
  exact length_dropWhile_lt (Bool.not_eq_false _ ▸ hscans)

theorem safe_of_read (hrem : self.remaining = blanks ++ (lit.text ++ rest))
    (hblanks : ∀ b ∈ blanks, isBlank b) (hread : lit.Read self rest) : lit.Safe rest := by
  obtain ⟨start, hstart, hrun⟩ := tokenRun_literal hrem hblanks
  have henters := enters_of_read hrun hstart hread
  have hbehind := not_scans_of_read hrun hstart hread
  have hkeep := hread
  obtain ⟨next, hnext, -, htype, -⟩ := hkeep
  rcases LiteralBase.tokenProcNumber_body hstart henters with
    ⟨hnone, -, -⟩ | ⟨last, hlast, hfits, -, hlastType, -⟩
  · rw [hrun, hnone] at hnext
    cases hnext
  · rw [hrun, hlast] at hnext
    obtain ⟨rfl, -⟩ := Prod.mk.inj (some.inj hnext)
    refine ⟨fun hbase => ?_, ?_⟩
    · have hlength := hfits hbase
      rw [takeWhile_append_of_pos lit.scans_digits, length_append] at hlength
      omega
    · cases hbase : lit.base with
      | decimal => trivial
      | octal =>
        rw [hbase] at hbehind henters
        intro hsuffix c hc
        have hnot := hbehind hsuffix c hc
        refine ⟨?_, ?_, fun hdigits => ?_⟩
        · rintro rfl
          cases hnot
        · rintro rfl
          cases hnot
        · rw [hdigits, hsuffix] at henters
          exact henters c hc
      | hex upper =>
        have hsuffix : lit.suffix = none := by
          by_contra hsome
          rw [if_pos (isSome_iff_ne_none.mpr hsome), hlastType] at htype
          have hhead := head?_dropWhile_not lit.base.scans
            (lit.digits ++ (lit.suffix.toList ++ rest))
          split_ifs at htype with hend
          rw [hbase] at hend hhead
          rcases hend with hend | hend <;> rw [hend] at hhead <;>
            exact Bool.false_ne_true hhead.symm
        refine ⟨hsuffix, fun c hc hletter => ?_⟩
        have hnot := hbehind hsuffix c hc
        simp [hbase, LiteralBase.scans, hletter] at hnot
      | binary upper => trivial

/-- A whole literal is read rightly exactly when it is safe. -/
theorem read_iff (hrem : self.remaining = blanks ++ (lit.text ++ rest))
    (hblanks : ∀ b ∈ blanks, isBlank b) (hmax : lit.Maximal rest) :
    lit.Read self rest ↔ lit.Safe rest :=
  ⟨safe_of_read hrem hblanks, read_of_safe hrem hblanks hmax⟩

theorem isAlphanum_of_mem_text (lit : Literal) {c : Char} (hc : c ∈ lit.text) :
    c.isAlphanum = true := by
  have hmarker : ∀ c ∈ lit.base.marker, c.isAlphanum = true := by
    cases lit.base with
    | decimal | octal => simp [LiteralBase.marker]
    | hex upper | binary upper => cases upper <;> simp [LiteralBase.marker]
  simp only [text, mem_append, mem_toList] at hc
  rcases hc with hc | hc | hc
  · exact hmarker c hc
  · rw [Char.isAlphanum, Bool.or_eq_true]
    rcases LiteralBase.isDigit_cases (lit.isDigit c hc) with ⟨hlow, hhigh, -⟩ | ⟨-, hletter⟩
    · exact .inr (isDigit_iff.mpr ⟨hlow, hhigh⟩)
    · exact .inl (LiteralBase.isAlpha_of_le hletter)
  · rcases lit.isSuffix c hc with rfl | rfl <;> decide

theorem maximal_of_end (hend : ∀ c ∈ rest.head?, c.isAlphanum = false) : lit.Maximal rest := by
  intro other hstart
  by_contra hlong
  rw [Nat.not_le] at hlong
  cases rest with
  | nil =>
    rw [append_nil] at hstart
    exact absurd hstart.length_le (by omega)
  | cons c rest =>
    have hget : (lit.text ++ c :: rest)[lit.text.length]? = some c := by simp
    have hmem : c ∈ other.text := by
      obtain ⟨tail, htail⟩ := hstart
      rw [← htail, getElem?_append_left hlong] at hget
      exact mem_of_getElem? hget
    exact absurd (isAlphanum_of_mem_text other hmem) (by simp [hend c rfl])

def hexOne (suffix : Option Char) (isSuffix : ∀ ch ∈ suffix, ch = 'l' ∨ ch = 'L') : Literal where
  base := .hex false
  digits := ['1']
  suffix := suffix
  isDigit := by
    intro ch hch
    rw [mem_singleton.mp hch]
    exact ⟨1, by decide, rfl⟩
  wellFormed := cons_ne_nil _ _
  isSuffix := isSuffix

theorem read_hexOne :
    (hexOne none (by simp)).Read (finshTokenInit [' ', '0', 'x', '1', ';']) [';'] := by
  have hiff := @read_iff (hexOne none (by simp)) (finshTokenInit [' ', '0', 'x', '1', ';']) [' ']
    [';'] rfl (by simp [isBlank]) (maximal_of_end (by simp))
  refine hiff.mpr ⟨fun _ => by decide, rfl, ?_⟩
  rintro c ⟨⟩
  decide

/-- The suffix of `0x1L` is taken for a digit. -/
theorem hex_suffix_lost : ¬∀ (lit : Literal) (self : FinshToken) (rest : List Char),
      self.remaining = lit.text ++ rest → lit.Maximal rest → lit.Read self rest := by
  intro h
  have hread := h (hexOne (some 'L') (by simp)) (finshTokenInit ['0', 'x', '1', 'L', ';']) [';']
    rfl (maximal_of_end (by simp))
  have hsafe : (hexOne (some 'L') (by simp)).Safe [';'] :=
    @safe_of_read _ _ [] _ rfl (by simp) hread
  exact absurd hsafe.2.1 (by simp [hexOne])

end Literal

end RtThread.Finsh
