import Mathlib.Data.Nat.Digits.Lemmas
import Mathlib.Tactic

/-!
# Reading numerals

A numeral is read from its front: blanks, a sign, and digits up to the first character
which is none.  Behind the digits only blanks may follow.
-/

namespace RtThread.Numerals

open List Option

def digitValue (c : Char) : Option ℕ :=
  if '0' ≤ c ∧ c ≤ '9' then some (c.toNat - 48)
  else if 'a' ≤ c ∧ c ≤ 'f' then some (c.toNat - 87)
  else if 'A' ≤ c ∧ c ≤ 'F' then some (c.toNat - 55)
  else none

theorem code_of_digitValue {c : Char} {d : ℕ} (hvalue : digitValue c = some d) :
    48 ≤ c.toNat ∧ c.toNat ≤ 57 ∧ d = c.toNat - 48 ∨
      97 ≤ c.toNat ∧ c.toNat ≤ 102 ∧ d = c.toNat - 87 ∨
      65 ≤ c.toNat ∧ c.toNat ≤ 70 ∧ d = c.toNat - 55 := by
  unfold digitValue at hvalue
  split_ifs at hvalue with hdecimal hlower hupper
  · change 48 ≤ c.toNat ∧ c.toNat ≤ 57 at hdecimal
    exact .inl ⟨hdecimal.1, hdecimal.2, (some.inj hvalue).symm⟩
  · change 97 ≤ c.toNat ∧ c.toNat ≤ 102 at hlower
    exact .inr (.inl ⟨hlower.1, hlower.2, (some.inj hvalue).symm⟩)
  · change 65 ≤ c.toNat ∧ c.toNat ≤ 70 at hupper
    exact .inr (.inr ⟨hupper.1, hupper.2, (some.inj hvalue).symm⟩)

theorem digitValue_decimal {c : Char} (hlow : 48 ≤ c.toNat) (hhigh : c.toNat ≤ 57) :
    digitValue c = some (c.toNat - 48) :=
  if_pos ⟨hlow, hhigh⟩

/-- The value of the digits, with `n` read already, and what stands behind them. -/
def readDigits (base : ℕ) : List Char → ℕ → ℕ × List Char
  | [], n => (n, [])
  | c :: text, n =>
    match digitValue c with
    | none => (n, c :: text)
    | some d => if d < base then readDigits base text (n * base + d) else (n, c :: text)

def readSign : List Char → Bool × List Char
  | '-' :: text => (true, text)
  | '+' :: text => (false, text)
  | text => (false, text)

def readNumber (base : ℕ) (text : List Char) : Option ℤ :=
  let (negative, text) := readSign (text.dropWhile (· = ' '))
  let (n, rest) := readDigits base text 0
  if rest.length < text.length ∧ rest.all (· = ' ') then
    some (if negative then -(n : ℤ) else n)
  else none

def Ends (text : List Char) : Prop := ∀ c ∈ text.head?, digitValue c = none

theorem ends_blanks (n : ℕ) : Ends (List.replicate n ' ') := by
  intro c hc
  cases n with
  | zero => simp at hc
  | succ n =>
    simp only [replicate_succ, head?_cons, mem_def, some.injEq] at hc
    rw [← hc]
    decide

section Reading

variable {base : ℕ} {digits : List ℕ} {char : ℕ → Char} {rest : List Char}

theorem readDigits_digits (hvalue : ∀ d ∈ digits, digitValue (char d) = some d)
    (hbase : ∀ d ∈ digits, d < base) (hrest : Ends rest) (n : ℕ) :
    readDigits base (digits.map char ++ rest) n =
      (digits.foldl (fun n d => n * base + d) n, rest) := by
  induction digits generalizing n with
  | nil =>
    cases rest with
    | nil => rfl
    | cons c rest =>
      have hc := hrest c rfl
      simp [readDigits, hc]
  | cons d digits ih =>
    have hd := hvalue d mem_cons_self
    have hlt := hbase d mem_cons_self
    rw [map_cons, cons_append, readDigits, hd]
    simp only [if_pos hlt, foldl_cons]
    apply ih
    · exact fun d hd => hvalue d (mem_cons_of_mem _ hd)
    · exact fun d hd => hbase d (mem_cons_of_mem _ hd)

theorem readDigits_foreign (rest : List Char) (hvalue : ∀ d ∈ digits, digitValue (char d) = some d)
    (hbase : ∃ d ∈ digits, base ≤ d) (n : ℕ) : ∃ n' d text, d ∈ digits ∧
      readDigits base (digits.map char ++ rest) n = (n', char d :: text) := by
  induction digits generalizing n with
  | nil =>
    rcases hbase with ⟨d, hd, -⟩
    cases hd
  | cons d digits ih =>
    rw [map_cons, cons_append, readDigits, hvalue d mem_cons_self]
    by_cases hlt : d < base
    · have hlater : ∃ d ∈ digits, base ≤ d := by
        rcases hbase with ⟨d', hd', hle⟩
        rcases mem_cons.mp hd' with hfirst | hrest
        · omega
        · exact ⟨d', hrest, hle⟩
      rcases ih (fun d hd => hvalue d (mem_cons_of_mem _ hd)) hlater (n * base + d)
        with ⟨n', d', text, hd', hread⟩
      simp only [if_pos hlt]
      exact ⟨n', d', text, mem_cons_of_mem _ hd', hread⟩
    · simp only [if_neg hlt]
      exact ⟨n, d, _, mem_cons_self, rfl⟩

theorem dropWhile_blanks (n : ℕ) {text : List Char} (hhead : ∀ c ∈ text.head?, c ≠ ' ') :
    (List.replicate n ' ' ++ text).dropWhile (· = ' ') = text := by
  rw [dropWhile_append_of_pos]
  · cases text with
    | nil => rfl
    | cons c text =>
      have hc := hhead c rfl
      rw [dropWhile_cons, if_neg (by simpa using hc)]
  · intro c hc
    simpa using eq_of_mem_replicate hc

def IsSign (sign : Option Char) : Prop :=
  sign = none ∨ sign = some '-' ∨ sign = some '+' ∨ sign = some ' '

theorem digit_ne (hvalue : ∀ d ∈ digits, digitValue (char d) = some d) {c : Char}
    (hc : digitValue c = none) {d : ℕ} (hd : d ∈ digits) : char d ≠ c := by
  intro heq
  have hsome := hvalue d hd
  rw [heq, hc] at hsome
  cases hsome

theorem readSign_field {sign : Option Char} (hsign : IsSign sign) (before : ℕ) (hne : digits ≠ [])
    (hvalue : ∀ d ∈ digits, digitValue (char d) = some d) : readSign ((List.replicate before ' ' ++
        (sign.toList ++ (digits.map char ++ rest))).dropWhile (· = ' ')) =
      (decide (sign = some '-'), digits.map char ++ rest) := by
  cases digits with
  | nil => contradiction
  | cons d digits =>
    have hblank : char d ≠ ' ' := digit_ne hvalue (by decide) mem_cons_self
    have hminus : char d ≠ '-' := digit_ne hvalue (by decide) mem_cons_self
    have hplus : char d ≠ '+' := digit_ne hvalue (by decide) mem_cons_self
    have hread : ∀ text, readSign (char d :: text) = (false, char d :: text) := by
      intro text
      unfold readSign
      split
      · next heq => exact absurd (cons.inj heq).1 hminus
      · next heq => exact absurd (cons.inj heq).1 hplus
      · rfl
    rcases hsign with rfl | rfl | rfl | rfl
    · rw [dropWhile_blanks before]
      · exact hread _
      · simpa using hblank
    · rw [dropWhile_blanks before]
      · rfl
      · simp
    · rw [dropWhile_blanks before]
      · rfl
      · simp
    · have hmore : List.replicate before ' ' ++
            ((some ' ').toList ++ ((d :: digits).map char ++ rest)) =
          List.replicate (before + 1) ' ' ++ ((d :: digits).map char ++ rest) := by
        rw [replicate_succ', append_assoc]
        rfl
      rw [hmore, dropWhile_blanks (before + 1)]
      · exact hread _
      · simpa using hblank

theorem readNumber_field
    {sign : Option Char} (hsign : IsSign sign) (before behind : ℕ) (hne : digits ≠ [])
    (hvalue : ∀ d ∈ digits, digitValue (char d) = some d) (hbase : ∀ d ∈ digits, d < base) :
    readNumber base (List.replicate before ' ' ++
        (sign.toList ++ (digits.map char ++ List.replicate behind ' '))) =
      some (if sign = some '-' then -((digits.foldl (fun n d => n * base + d) 0 : ℕ) : ℤ)
        else (digits.foldl (fun n d => n * base + d) 0 : ℕ)) := by
  unfold readNumber
  rw [readSign_field hsign before hne hvalue]
  simp only [readDigits_digits hvalue hbase (ends_blanks behind)]
  have hlength : 0 < digits.length := length_pos_iff.mpr hne
  simp [hlength]

theorem readNumber_foreign {sign : Option Char} (hsign : IsSign sign) (before : ℕ)
    (hvalue : ∀ d ∈ digits, digitValue (char d) = some d) (hbase : ∃ d ∈ digits, base ≤ d) :
    readNumber base (List.replicate before ' ' ++
        (sign.toList ++ (digits.map char ++ rest))) = none := by
  have hne : digits ≠ [] := by
    rcases hbase with ⟨d, hd, -⟩
    exact ne_nil_of_mem hd
  rcases readDigits_foreign rest hvalue hbase 0 with ⟨n, d, text, hd, hread⟩
  unfold readNumber
  rw [readSign_field hsign before hne hvalue]
  have hblank : char d ≠ ' ' := digit_ne hvalue (by decide) hd
  simp [hread, hblank]

theorem foldl_digits (b zeros : ℕ) (digits : List ℕ) :
    (List.replicate zeros 0 ++ digits.reverse).foldl (fun n d => n * b + d) 0 =
      Nat.ofDigits b digits := by
  have hzeros : (List.replicate zeros 0).foldl (fun n d => n * b + d) 0 = 0 := by
    induction zeros with
    | zero => rfl
    | succ zeros ih => simpa [replicate_succ] using ih
  rw [foldl_append, hzeros, foldl_reverse]
  induction digits with
  | nil => rfl
  | cons d digits ih =>
    rw [foldr_cons, ih, Nat.ofDigits_cons]
    ring

end Reading

end RtThread.Numerals
