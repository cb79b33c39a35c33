import RtThread.Numerals
import RtThread.PrintfSizes

/-!
# Printed integers

The field of an integer conversion is read back as a numeral of its base.  It denotes
the argument, except that `divide` takes every base but ten for sixteen: `%o` prints
sixteen's digits, and is right for arguments below eight only.
-/

namespace RtThread.Printf

open List Numerals Nat

inductive Width where
  | none
  | number (n : ℕ) (hpos : 0 < n)
  | star (word : UInt32)

inductive Precision where
  | none
  | number (zeros n : ℕ)
  | star (word : UInt32)

inductive Qualifier where
  | none
  | h
  | l
  deriving DecidableEq

inductive IntConversion where
  | d
  | i
  | u
  | x
  | X
  | o
  deriving DecidableEq

def decimal (n : ℕ) : List Char := (Nat.digits 10 n).reverse.map Nat.digitChar

namespace Width

def chars : Width → List Char
  | .none => []
  | .number n _ => decimal n
  | .star _ => ['*']

def args : Width → List UInt32
  | .none => []
  | .number _ _ => []
  | .star word => [word]

def value : Width → ℤ
  | .none => 0
  | .number n _ => n
  | .star word => |(word.toNat : ℤ).bmod 4294967296|

end Width

namespace Precision

def chars : Precision → List Char
  | .none => []
  | .number zeros n => '.' :: (List.replicate zeros '0' ++ decimal n)
  | .star _ => ['.', '*']

def args : Precision → List UInt32
  | .none => []
  | .number _ _ => []
  | .star word => [word]

end Precision

def Qualifier.chars : Qualifier → List Char
  | .none => []
  | .h => ['h']
  | .l => ['l']

namespace IntConversion

def char : IntConversion → Char
  | .d => 'd'
  | .i => 'i'
  | .u => 'u'
  | .x => 'x'
  | .X => 'X'
  | .o => 'o'

def base : IntConversion → ℕ
  | .d => 10
  | .i => 10
  | .u => 10
  | .x => 16
  | .X => 16
  | .o => 8

def Signed : IntConversion → Prop
  | .d => True
  | .i => True
  | _ => False

instance (conv : IntConversion) : Decidable conv.Signed :=
  match conv with
  | .d => isTrue trivial
  | .i => isTrue trivial
  | .u => isFalse id
  | .x => isFalse id
  | .X => isFalse id
  | .o => isFalse id

end IntConversion

def flagChars : List Char := ['-', '+', ' ', '#', '0']

structure IntSpec where
  flags : List Char
  width : Width
  precision : Precision
  qualifier : Qualifier
  conv : IntConversion
  flags_mem : ∀ c ∈ flags, c ∈ flagChars

namespace IntSpec

variable (spec : IntSpec)

def chars : List Char :=
  spec.flags ++ (spec.width.chars ++ (spec.precision.chars ++
    (spec.qualifier.chars ++ [spec.conv.char])))

def value (word : UInt32) : ℤ :=
  let modulus : ℕ := if spec.qualifier = .h then 65536 else 4294967296
  if spec.conv.Signed then (word.toNat : ℤ).bmod modulus else (word.toNat : ℤ) % modulus

end IntSpec

namespace VaList

def cons (word : UInt32) (args : VaList) : VaList
  | 0 => word
  | i + 1 => args i

def prepend (words : List UInt32) (args : VaList) : VaList := words.foldr cons args

@[simp]
theorem rest_cons (word : UInt32) (args : VaList) : (cons word args).rest = args := rfl

end VaList

def IntSpec.args (spec : IntSpec) (word : UInt32) (rest : VaList) : VaList :=
  VaList.prepend spec.width.args (VaList.prepend spec.precision.args (VaList.cons word rest))

def BeginsWith (chars text : List Char) : Prop := ∃ c rest, text = c :: rest ∧ c ∈ chars

def convChars : List Char := ['d', 'i', 'u', 'x', 'X', 'o']

def qualifierChars : List Char := 'h' :: 'l' :: convChars

def precisionChars : List Char := '.' :: qualifierChars

section Scanning

variable {chars chars' text rest : List Char} {s : Scan} {args : VaList}

theorem BeginsWith.mono (h : BeginsWith chars text) (hsub : chars ⊆ chars') :
    BeginsWith chars' text := by
  rcases h with ⟨c, rest, rfl, hc⟩
  exact ⟨c, rest, rfl, hsub hc⟩

theorem beginsWith_conv (conv : IntConversion) (fmt : List Char) :
    BeginsWith convChars (conv.char :: fmt) := by
  refine ⟨conv.char, fmt, rfl, ?_⟩
  cases conv
  all_goals decide

theorem beginsWith_qualifier (qualifier : Qualifier) (h : BeginsWith convChars text) :
    BeginsWith qualifierChars (qualifier.chars ++ text) := by
  cases qualifier with
  | none => exact h.mono (by decide)
  | h => exact ⟨'h', text, rfl, by decide⟩
  | l => exact ⟨'l', text, rfl, by decide⟩

theorem beginsWith_precision (precision : Precision) (h : BeginsWith qualifierChars text) :
    BeginsWith precisionChars (precision.chars ++ text) := by
  cases precision with
  | none => exact h.mono (by decide)
  | number zeros n | star word => exact ⟨'.', _, rfl, by decide⟩

theorem skipAtoi_digits {digits : List ℕ} (hdigits : ∀ d ∈ digits, d < 10)
    (hrest : ∀ c ∈ rest.head?, isdigit c = false) (i : ℕ) :
    skipAtoi (digits.map Nat.digitChar ++ rest) i =
      (((digits.foldl (fun n d => n * 10 + d) i : ℕ) : ℤ), rest) := by
  induction digits generalizing i with
  | nil =>
    cases rest with
    | nil => rfl
    | cons c rest =>
      have hc := hrest c rfl
      simp [skipAtoi, hc]
  | cons d digits ih =>
    have hd := toNat_digitChar_of_lt_ten (hdigits d mem_cons_self)
    have hlt := hdigits d mem_cons_self
    have hdigit : isdigit (digitChar d) = true := by
      apply decide_eq_true
      rw [hd]
      omega
    have hnext : (i : ℤ) * 10 + (digitChar d).toNat - 48 = ((i * 10 + d : ℕ) : ℤ) := by
      rw [hd]
      omega
    rw [map_cons, cons_append, skipAtoi, if_pos hdigit, hnext]
    exact ih (fun d hd => hdigits d (mem_cons_of_mem _ hd)) (i * 10 + d)

theorem skipAtoi_decimal (hrest : ∀ c ∈ rest.head?, isdigit c = false) (zeros n : ℕ) :
    skipAtoi (List.replicate zeros '0' ++ decimal n ++ rest) 0 = ((n : ℤ), rest) := by
  have hchars : List.replicate zeros '0' ++ decimal n =
      (List.replicate zeros 0 ++ (digits 10 n).reverse).map digitChar := by
    rw [map_append, map_replicate]
    rfl
  rw [hchars]
  refine (skipAtoi_digits ?_ hrest 0).trans ?_
  · intro d hd
    rcases mem_append.mp hd with hzero | hdigit
    · rw [eq_of_mem_replicate hzero]
      decide
    · exact digits_lt_base (by decide) (mem_reverse.mp hdigit)
  · rw [foldl_digits, ofDigits_digits]

theorem beginsWith_decimal {n : ℕ} (hpos : 0 < n) :
    BeginsWith ['1', '2', '3', '4', '5', '6', '7', '8', '9'] (decimal n) := by
  have hne : digits 10 n ≠ [] := digits_ne_nil_iff_ne_zero.mpr hpos.ne'
  have hlast : (digits 10 n).getLast hne ≠ 0 := getLast_digit_ne_zero 10 hpos.ne'
  have hlt : (digits 10 n).getLast hne < 10 :=
    digits_lt_base (by decide) (getLast_mem hne)
  refine ⟨digitChar ((digits 10 n).getLast hne),
    ((digits 10 n).dropLast.reverse).map digitChar, ?_, ?_⟩
  · have hdigits := dropLast_append_getLast hne
    unfold decimal
    rw [← congrArg List.reverse hdigits, reverse_append]
    rfl
  · generalize (digits 10 n).getLast hne = d at hlast hlt
    interval_cases d
    all_goals first
      | contradiction
      | decide

theorem scanFlags_append {flags : List Char} (hmem : ∀ c ∈ flags, c ∈ flagChars)
    (hrest : ∀ c ∈ rest.head?, c ∉ flagChars) (f : Flags) : (scanFlags (flags ++ rest) f).2 = rest ∧
      (scanFlags (flags ++ rest) f).1.sign = f.sign ∧
      (scanFlags (flags ++ rest) f).1.large = f.large := by
  induction flags generalizing f with
  | nil =>
    cases rest with
    | nil => exact ⟨rfl, rfl, rfl⟩
    | cons c rest =>
      have hc := hrest c rfl
      simp only [flagChars, mem_cons, not_mem_nil, or_false, not_or] at hc
      rcases hc with ⟨hminus, hplus, hblank, hhash, hzero⟩
      simp [scanFlags, hminus, hplus, hblank, hhash, hzero]
  | cons c flags ih =>
    have hc := hmem c mem_cons_self
    have ih := ih fun c hc => hmem c (mem_cons_of_mem _ hc)
    rw [cons_append, scanFlags]
    split_ifs with hminus hplus hblank hhash hzero
    · exact ih _
    · exact ih _
    · exact ih _
    · exact ih _
    · exact ih _
    · simp [flagChars, hminus, hplus, hblank, hhash, hzero] at hc

structure Reads (s : Scan) (width : Width) (qualifier : Option Char) (fmt : List Char)
    (args : VaList) : Prop where
  fmt : s.fmt = fmt
  args : s.args = args
  sign : s.flags.sign = false
  large : s.flags.large = false
  width : width.value ≤ max s.fieldWidth 0
  qualifier : s.qualifier = qualifier

theorem reads_scanWidth {width : Width} (hrest : BeginsWith precisionChars rest)
    (hreads : Reads s .none none (width.chars ++ rest) (VaList.prepend width.args args)) :
    Reads (scanWidth s) width none rest args := by
  rcases hrest with ⟨c, tail, rfl, hc⟩
  have hall : precisionChars.all fun c => decide (isdigit c = false ∧ c ≠ '*') := by decide
  have hdigit := of_decide_eq_true (all_eq_true.mp hall c hc)
  cases width with
  | none =>
    have hsame : scanWidth s = s := by
      unfold scanWidth
      rw [hreads.fmt]
      simp [Width.chars, hdigit]
    rw [hsame]
    exact hreads
  | number n hpos =>
    rcases beginsWith_decimal hpos with ⟨first, digits, hdecimal, hfirst⟩
    have hall : ['1', '2', '3', '4', '5', '6', '7', '8', '9'].all isdigit := by decide
    have hfirst := all_eq_true.mp hall first hfirst
    have hatoi : skipAtoi (decimal n ++ c :: tail) 0 = ((n : ℤ), c :: tail) :=
      skipAtoi_decimal (by simpa using hdigit.1) 0 n
    have hfmt : s.fmt = decimal n ++ c :: tail := hreads.fmt
    have hwidth : scanWidth s = { s with fmt := c :: tail, fieldWidth := n } := by
      unfold scanWidth
      rw [hfmt, hdecimal]
      simp only [cons_append, if_pos hfirst]
      rw [← cons_append, ← hdecimal, hatoi]
    rw [hwidth]
    constructor
    · rfl
    · exact hreads.args
    · exact hreads.sign
    · exact hreads.large
    · exact le_max_left _ _
    · exact hreads.qualifier
  | star word =>
    have hargs : s.args = VaList.cons word args := hreads.args
    have hint : s.args.int = (word.toNat : ℤ).bmod 4294967296 := by
      rw [hargs]
      rfl
    have hfmt : s.fmt = '*' :: c :: tail := hreads.fmt
    unfold scanWidth
    rw [hfmt]
    simp only [show isdigit '*' = false from by decide, Bool.false_eq_true, if_false, if_true, hint]
    split_ifs with hneg
    · constructor
      · rfl
      · simp only [hargs]
        rfl
      · exact hreads.sign
      · exact hreads.large
      · simp only [Width.value]
        rw [abs_of_neg hneg]
        exact le_max_left _ _
      · exact hreads.qualifier
    · constructor
      · rfl
      · simp only [hargs]
        rfl
      · exact hreads.sign
      · exact hreads.large
      · simp only [Width.value]
        rw [abs_of_nonneg (not_lt.mp hneg)]
        exact le_max_left _ _
      · exact hreads.qualifier

def widthChars : List Char :=
  ['*', '1', '2', '3', '4', '5', '6', '7', '8', '9'] ++ precisionChars

theorem beginsWith_width (width : Width) (h : BeginsWith precisionChars text) :
    BeginsWith widthChars (width.chars ++ text) := by
  cases width with
  | none => exact h.mono (subset_append_right _ _)
  | number n hpos =>
    rcases beginsWith_decimal hpos with ⟨c, rest, hdecimal, hc⟩
    refine ⟨c, rest ++ text, ?_, mem_append_left _ (mem_cons_of_mem _ hc)⟩
    simp only [Width.chars, hdecimal, cons_append]
  | star word => exact ⟨'*', text, rfl, by decide⟩

theorem Reads.of_precision
    {width : Width} {qualifier : Option Char} {s' : Scan} {fmt : List Char} {args' : VaList}
    (hreads : Reads s width qualifier text args) (hfmt : s'.fmt = fmt) (hargs : s'.args = args')
    (hsame : s'.flags = s.flags ∧ s'.fieldWidth = s.fieldWidth ∧ s'.qualifier = s.qualifier) :
    Reads s' width qualifier fmt args' := by
  rcases hsame with ⟨hflags, hwidth, hqualifier⟩
  constructor
  · exact hfmt
  · exact hargs
  · rw [hflags]
    exact hreads.sign
  · rw [hflags]
    exact hreads.large
  · rw [hwidth]
    exact hreads.width
  · rw [hqualifier]
    exact hreads.qualifier

theorem scanPrecision_dot {fmt : List Char} (hfmt : s.fmt = '.' :: fmt) :
    (scanPrecision s).fmt = (scanNumber { s with fmt := fmt }).fmt ∧
      (scanPrecision s).args = (scanNumber { s with fmt := fmt }).args ∧
      (scanPrecision s).flags = s.flags ∧ (scanPrecision s).fieldWidth = s.fieldWidth ∧
      (scanPrecision s).qualifier = s.qualifier := by
  have hnumber : (scanNumber { s with fmt := fmt }).flags = s.flags ∧
      (scanNumber { s with fmt := fmt }).fieldWidth = s.fieldWidth ∧
      (scanNumber { s with fmt := fmt }).qualifier = s.qualifier := by
    unfold scanNumber
    split
    · exact ⟨rfl, rfl, rfl⟩
    · simp only
      split_ifs
      · exact ⟨rfl, rfl, rfl⟩
      · exact ⟨rfl, rfl, rfl⟩
      · exact ⟨rfl, rfl, rfl⟩
  unfold scanPrecision
  rw [hfmt]
  simp only
  split_ifs
  · exact ⟨rfl, rfl, hnumber⟩
  · exact ⟨rfl, rfl, hnumber⟩

theorem scanNumber_digits (hhead : ∀ c ∈ s.fmt.head?, c ≠ '*') :
    (scanNumber s).fmt = (skipAtoi s.fmt 0).2 ∧ (scanNumber s).args = s.args := by
  unfold scanNumber
  split
  · next hnil =>
      rw [hnil]
      exact ⟨rfl, rfl⟩
  · next c fmt hcons =>
      rw [hcons] at hhead ⊢
      have hc := hhead c rfl
      split_ifs with hdigit
      · exact ⟨rfl, rfl⟩
      · refine ⟨?_, rfl⟩
        rw [skipAtoi, if_neg hdigit]
        exact hcons

theorem reads_scanPrecision
    {width : Width} {precision : Precision} (hrest : BeginsWith qualifierChars rest)
    (hreads : Reads s width none (precision.chars ++ rest) (VaList.prepend precision.args args)) :
    Reads (scanPrecision s) width none rest args := by
  rcases hrest with ⟨c, tail, rfl, hc⟩
  have hall : qualifierChars.all fun c =>
      decide (isdigit c = false ∧ c ≠ '*' ∧ c ≠ '.') := by decide
  have hother := of_decide_eq_true (all_eq_true.mp hall c hc)
  cases precision with
  | none =>
    have hfmt : s.fmt = c :: tail := hreads.fmt
    have hsame : scanPrecision s = s := by
      unfold scanPrecision
      rw [hfmt]
      split
      · next heq => exact absurd (cons.inj heq).1 hother.2.2
      · rfl
    rw [hsame]
    exact hreads
  | number zeros n =>
    have hfmt : s.fmt = '.' :: (List.replicate zeros '0' ++ decimal n ++ c :: tail) := hreads.fmt
    rcases scanPrecision_dot hfmt with ⟨hdotfmt, hdotargs, hsame⟩
    have hatoi : skipAtoi (List.replicate zeros '0' ++ decimal n ++ c :: tail) 0 =
        ((n : ℤ), c :: tail) := skipAtoi_decimal (by simpa using hother.1) zeros n
    have hhead : ∀ first ∈ (List.replicate zeros '0' ++ decimal n ++ c :: tail).head?,
        first ≠ '*' := by
      intro first hfirst heq
      rw [heq] at hfirst
      rcases head?_eq_some_iff.mp hfirst with ⟨more, hmore⟩
      rw [hmore, skipAtoi, if_neg (by decide)] at hatoi
      exact hother.2.1 (cons.inj (Prod.mk.inj hatoi).2).1.symm
    have hdigits := scanNumber_digits
      (s := { s with fmt := List.replicate zeros '0' ++ decimal n ++ c :: tail }) hhead
    apply hreads.of_precision _ _ hsame
    · rw [hdotfmt, hdigits.1]
      simp only [hatoi]
    · rw [hdotargs, hdigits.2]
      exact hreads.args
  | star word =>
    have hfmt : s.fmt = '.' :: '*' :: c :: tail := hreads.fmt
    have hargs : s.args = VaList.cons word args := hreads.args
    rcases scanPrecision_dot hfmt with ⟨hdotfmt, hdotargs, hsame⟩
    apply hreads.of_precision _ _ hsame
    · exact hdotfmt
    · rw [hdotargs]
      simp only [scanNumber, hargs]
      rfl

def Qualifier.char : Qualifier → Option Char
  | .none => Option.none
  | .h => some 'h'
  | .l => some 'l'

theorem reads_scanQualifier
    {width : Width} {qualifier : Qualifier} (hrest : BeginsWith convChars rest)
    (hreads : Reads s width none (qualifier.chars ++ rest) args) :
    Reads (scanQualifier s) width qualifier.char rest args := by
  rcases hrest with ⟨c, tail, rfl, hc⟩
  have hall : convChars.all fun c => decide (c ≠ 'h' ∧ c ≠ 'l') := by decide
  have hother := of_decide_eq_true (all_eq_true.mp hall c hc)
  unfold scanQualifier
  rw [hreads.fmt]
  cases qualifier with
  | none =>
    split
    · next heq => exact absurd (cons.inj heq).1 hother.1
    · next heq => exact absurd (cons.inj heq).1 hother.2
    · exact hreads
  | h | l => exact ⟨rfl, hreads.args, hreads.sign, hreads.large, hreads.width, rfl⟩

theorem reads_scan (spec : IntSpec) (word : UInt32) (fmt : List Char) (rest : VaList) :
    Reads (scan (spec.chars ++ fmt) (spec.args word rest)) spec.width spec.qualifier.char
      (spec.conv.char :: fmt) (VaList.cons word rest) := by
  have hconv := beginsWith_conv spec.conv fmt
  have hqualifier := beginsWith_qualifier spec.qualifier hconv
  have hprecision := beginsWith_precision spec.precision hqualifier
  have hchars : spec.chars ++ fmt = spec.flags ++ (spec.width.chars ++ (spec.precision.chars ++
      (spec.qualifier.chars ++ spec.conv.char :: fmt))) := by
    simp [IntSpec.chars]
  have hhead : ∀ c ∈ (spec.width.chars ++ (spec.precision.chars ++
      (spec.qualifier.chars ++ spec.conv.char :: fmt))).head?, c ∉ flagChars := by
    rcases beginsWith_width spec.width hprecision with ⟨first, more, htext, hfirst⟩
    have hall : widthChars.all fun c => decide (c ∉ flagChars) := by decide
    have hother := of_decide_eq_true (all_eq_true.mp hall first hfirst)
    rw [htext]
    simpa using hother
  rcases scanFlags_append spec.flags_mem hhead {} with ⟨hfmt, hsign, hlarge⟩
  rw [← hchars] at hfmt hsign hlarge
  apply reads_scanQualifier hconv
  apply reads_scanPrecision hqualifier
  apply reads_scanWidth hprecision
  exact ⟨hfmt, rfl, hsign, hlarge, le_max_right _ _, rfl⟩

theorem num_bounds (s : Scan) : -4294967296 < s.num ∧ s.num < 4294967296 := by
  have hbmod : ∀ x : ℤ, -4294967296 < x.bmod 4294967296 ∧ x.bmod 4294967296 < 4294967296 := by
    intro x
    rw [Int.bmod_def]
    split_ifs
    · omega
    · omega
  exact hbmod _

theorem num_eq {spec : IntSpec} {word : UInt32} {tail : VaList}
    (hargs : s.args = VaList.cons word tail) (hqualifier : s.qualifier = spec.qualifier.char)
    (hsign : s.flags.sign = decide spec.conv.Signed) :
    (spec.conv.Signed → s.num = spec.value word) ∧
      (¬spec.conv.Signed → s.num % 4294967296 = spec.value word) := by
  have hword : s.args.word = (word.toNat : ℤ) := by
    rw [hargs]
    rfl
  have hint : s.args.int % 65536 = (word.toNat : ℤ) % 65536 := by
    unfold VaList.int
    rw [hword, Int.bmod_def]
    split_ifs
    · lia
    · lia
  have hh : (s.qualifier = some 'h') ↔ spec.qualifier = .h := by
    rw [hqualifier]
    cases spec.qualifier
    all_goals decide
  unfold Scan.num IntSpec.value
  constructor
  · intro hsigned
    by_cases hqual : spec.qualifier = .h
    · simp only [if_pos hqual]
      simp only [Int.bmod_def]
      split_ifs
      all_goals lia
    · simp only [if_neg hqual]
      simp only [Int.bmod_def]
      split_ifs
      all_goals lia
  · intro hsigned
    by_cases hqual : spec.qualifier = .h
    · simp only [if_pos hqual]
      simp only [Int.bmod_def]
      split_ifs
      all_goals lia
    · simp only [if_neg hqual]
      simp only [Int.bmod_def]
      split_ifs
      all_goals lia

def IntConversion.setFlags (flags : Flags) : IntConversion → Flags
  | .d => { flags with sign := true }
  | .i => { flags with sign := true }
  | .X => { flags with large := true }
  | _ => flags

theorem convert_conv (strings : UInt32 → CString) (conv : IntConversion) {fmt : List Char}
    (hfmt : s.fmt = conv.char :: fmt) : convert strings s =
      { s with flags := conv.setFlags s.flags }.number conv.base fmt := by
  unfold convert
  rw [hfmt]
  cases conv
  all_goals rfl

structure Prints (spec : IntSpec) (word : UInt32) (num fieldWidth : ℤ) (flags : Flags) : Prop where
  sign : flags.sign = decide spec.conv.Signed
  width : spec.width.value ≤ max fieldWidth 0
  bounds : -4294967296 < num ∧ num < 4294967296
  signed : spec.conv.Signed → num = spec.value word
  unsigned : ¬spec.conv.Signed → num % 4294967296 = spec.value word

/-- What a number conversion reads and prints. -/
theorem directives_spec
    (strings : UInt32 → CString) (spec : IntSpec) (word : UInt32) (fmt : List Char)
    (tail : VaList) : ∃ num fieldWidth precision flags,
      directives strings ('%' :: (spec.chars ++ fmt)) (spec.args word tail) =
        .number num spec.conv.base fieldWidth precision flags :: directives strings fmt tail ∧
      Prints spec word num fieldWidth flags := by
  have hreads := reads_scan spec word fmt tail
  generalize hs : scan (spec.chars ++ fmt) (spec.args word tail) = s at hreads
  have hsign : (spec.conv.setFlags s.flags).sign = decide spec.conv.Signed := by
    have hfalse := hreads.sign
    cases spec.conv
    all_goals first
      | rfl
      | exact hfalse
  have hnum := num_eq (s := { s with flags := spec.conv.setFlags s.flags }) hreads.args
    hreads.qualifier hsign
  refine ⟨_, s.fieldWidth, s.precision, spec.conv.setFlags s.flags, ?_, hsign, hreads.width,
    num_bounds _, hnum.1, hnum.2⟩
  rw [directives]
  simp only [nextDirective, ne_eq, not_true_eq_false, if_false, hs,
    convert_conv strings spec.conv hreads.fmt, Scan.number, hreads.args, VaList.rest_cons]

end Scanning

section Digits

variable {chars : List Char} {base num : ℤ}

def divisor (base : ℤ) : ℕ := if base = 10 then 10 else 16

theorem one_lt_divisor (base : ℤ) : 1 < divisor base := by
  unfold divisor
  split_ifs
  · decide
  · decide

theorem divide_eq (num base : ℤ) : divide num base =
      (num % 4294967296 % divisor base, num % 4294967296 / divisor base) := by
  unfold divide divisor
  split_ifs
  · rfl
  · rfl

theorem fillTmp_eq {room : ℕ} (hnum : -4294967296 < num ∧ num < 4294967296)
    (hroom : (num % 4294967296).toNat < divisor base ^ room) : fillTmp chars base room num =
      (Nat.digits (divisor base) (num % 4294967296).toNat).map fun d => chars.getD d nul := by
  induction room generalizing num with
  | zero =>
    have hzero : (num % 4294967296).toNat = 0 := by simpa using hroom
    rw [hzero, digits_zero]
    rfl
  | succ room ih =>
    have hbase := one_lt_divisor base
    by_cases hne : num = 0
    · rw [hne]
      simp [fillTmp]
    · have hpos : 0 < (num % 4294967296).toNat := by lia
      have hlt : (num % 4294967296).toNat < 4294967296 := by lia
      have hcast : num % 4294967296 = ((num % 4294967296).toNat : ℤ) := by lia
      generalize (num % 4294967296).toNat = n at hroom hpos hlt hcast ⊢
      have hquotient : n / divisor base ≤ n := div_le_self n _
      have hsmall : ∀ q < 4294967296, (((q : ℕ) : ℤ) % 4294967296).toNat = q := by
        intro q hq
        lia
      have hsame := hsmall (n / divisor base) (hquotient.trans_lt hlt)
      have hbounds : -4294967296 < ((n / divisor base : ℕ) : ℤ) ∧
          ((n / divisor base : ℕ) : ℤ) < 4294967296 :=
        ⟨by lia, by exact_mod_cast hquotient.trans_lt hlt⟩
      rw [pow_succ'] at hroom
      have hrest := ih hbounds (by
        rw [hsame]
        exact Nat.div_lt_of_lt_mul hroom)
      rw [hsame] at hrest
      rw [fillTmp, if_pos hne, divide_eq, hcast]
      simp only
      rw [← Int.natCast_ediv, hrest, digits_def' hbase hpos, map_cons,
        ← Int.natCast_emod, Int.toNat_natCast]

def tmpDigits (b n : ℕ) : List ℕ := if n = 0 then [0] else Nat.digits b n

def digitChar (type : Flags) (d : ℕ) : Char := (digitChars type).getD d nul

theorem digitChar_zero (type : Flags) : digitChar type 0 = '0' := by
  unfold digitChar digitChars
  split_ifs
  · rfl
  · rfl

theorem numberTmp_eq
    (type : Flags) (base : ℤ) {num : ℤ} (hnum : -4294967296 < num ∧ num < 4294967296) :
    numberTmp (digitChars type) base num =
      (tmpDigits (divisor base) (num % 4294967296).toNat).map (digitChar type) := by
  unfold numberTmp tmpDigits
  by_cases hzero : num = 0
  · have hnone : (num % 4294967296).toNat = 0 := by lia
    rw [if_pos hzero, if_pos hnone, map_singleton, digitChar_zero]
  · have hne : (num % 4294967296).toNat ≠ 0 := by lia
    have hten : 10 ≤ divisor base := by
      unfold divisor
      split_ifs
      · decide
      · decide
    have hroom : (num % 4294967296).toNat < divisor base ^ 16 := by
      calc (num % 4294967296).toNat < 10 ^ 16 := by lia
        _ ≤ divisor base ^ 16 := Nat.pow_le_pow_left hten 16
    rw [if_neg hzero, if_neg hne, fillTmp_eq hnum hroom]
    rfl

theorem digitValue_digitChar (type : Flags) {d : ℕ} (hd : d < 16) :
    digitValue (digitChar type d) = some d := by
  have hsmall : ∀ d < 16, digitValue (smallDigits.getD d nul) = some d := by decide
  have hlarge : ∀ d < 16, digitValue (largeDigits.getD d nul) = some d := by decide
  unfold digitChar digitChars
  split_ifs
  · exact hlarge d hd
  · exact hsmall d hd

theorem tmpDigits_lt {b n d : ℕ} (hb : 1 < b) (hd : d ∈ tmpDigits b n) : d < b := by
  unfold tmpDigits at hd
  split_ifs at hd
  · rw [mem_singleton.mp hd]
    omega
  · exact digits_lt_base hb hd

theorem ofDigits_tmpDigits (b n : ℕ) : Nat.ofDigits b (tmpDigits b n) = n := by
  unfold tmpDigits
  split_ifs with hzero
  · rw [hzero, ofDigits_singleton]
  · exact ofDigits_digits b n

theorem tmpDigits_ne_nil (b n : ℕ) : tmpDigits b n ≠ [] := by
  unfold tmpDigits
  split_ifs with hzero
  · exact cons_ne_nil _ _
  · exact digits_ne_nil_iff_ne_zero.mpr hzero

theorem ofDigits_eight_lt {n : ℕ} (hn : 16 ≤ n) : Nat.ofDigits 8 (tmpDigits 16 n) < n := by
  have hmono : ofDigits 8 (digits 16 (n / 16)) ≤ n / 16 := by
    calc ofDigits 8 (digits 16 (n / 16))
        ≤ ofDigits 16 (digits 16 (n / 16)) := ofDigits_monotone _ (by decide)
      _ = n / 16 := ofDigits_digits 16 _
  unfold tmpDigits
  rw [if_neg (by omega), digits_def' (by decide) (by omega), ofDigits_cons]
  omega

theorem octal_iff (n : ℕ) :
    ((∀ d ∈ tmpDigits 16 n, d < 8) ∧ Nat.ofDigits 8 (tmpDigits 16 n) = n) ↔ n < 8 := by
  rcases lt_or_ge n 16 with hlt | hge
  · have hdigits : tmpDigits 16 n = [n] := by
      unfold tmpDigits
      split_ifs with hzero
      · rw [hzero]
      · exact digits_of_lt 16 n hzero hlt
    simp [hdigits]
  · have hless := ofDigits_eight_lt hge
    constructor
    · intro h
      omega
    · intro h
      omega

end Digits

section Fields

variable (sign : Option Char) (digits : List ℕ) (precision size : ℤ) (type : Flags)

theorem exists_fieldShown (zeropad left : Bool) : ∃ before zeros behind,
      fieldShown sign (digits.map (digitChar type)) precision size zeropad left true =
        List.replicate before ' ' ++ (sign.toList ++
            ((List.replicate zeros 0 ++ digits.reverse).map (digitChar type) ++
              List.replicate behind ' ')) := by
  have hbody : ∀ zeros : ℕ, (List.replicate zeros 0 ++ digits.reverse).map (digitChar type) =
      List.replicate zeros '0' ++ (digits.map (digitChar type)).reverse := by
    intro zeros
    rw [map_append, map_replicate, digitChar_zero, map_reverse]
  simp only [hbody]
  unfold fieldShown fieldBody
  cases left with
  | true =>
    refine ⟨0, (precision - (digits.map (digitChar type)).length).toNat,
      (size - signWidth sign true).toNat, ?_⟩
    simp
  | false =>
    cases zeropad with
    | true =>
      refine ⟨0, (size - signWidth sign true).toNat +
        (precision - (digits.map (digitChar type)).length).toNat, 0, ?_⟩
      rw [← replicate_append_replicate]
      simp only [length_map, Bool.false_eq_true, if_false, if_true, append_assoc,
        replicate_zero, nil_append, append_nil]
    | false =>
      refine ⟨(size - signWidth sign true).toNat,
        (precision - (digits.map (digitChar type)).length).toNat, 0, ?_⟩
      simp

variable {sign digits}

theorem digitValue_field (h16 : ∀ d ∈ digits, d < 16) (zeros : ℕ) :
    ∀ d ∈ List.replicate zeros 0 ++ digits.reverse, digitValue (digitChar type d) = some d := by
  intro d hd
  rcases mem_append.mp hd with hzero | hdigit
  · rw [eq_of_mem_replicate hzero]
    exact digitValue_digitChar type (by decide)
  · exact digitValue_digitChar type (h16 d (mem_reverse.mp hdigit))

theorem readNumber_fieldShown (hsign : IsSign sign) (hne : digits ≠ []) (h16 : ∀ d ∈ digits, d < 16)
    {base : ℕ} (hbase : ∀ d ∈ digits, d < base) (zeropad left : Bool) : readNumber base
        (fieldShown sign (digits.map (digitChar type)) precision size zeropad left true) =
      some (if sign = some '-' then -((Nat.ofDigits base digits : ℕ) : ℤ)
        else ((Nat.ofDigits base digits : ℕ) : ℤ)) := by
  rcases exists_fieldShown sign digits precision size type zeropad left with
    ⟨before, zeros, behind, hfield⟩
  have hpos : 0 < base := by
    rcases exists_mem_of_ne_nil digits hne with ⟨d, hd⟩
    exact zero_lt_of_lt (hbase d hd)
  have hall : ∀ d ∈ List.replicate zeros 0 ++ digits.reverse, d < base := by
    intro d hd
    rcases mem_append.mp hd with hzero | hdigit
    · rw [eq_of_mem_replicate hzero]
      exact hpos
    · exact hbase d (mem_reverse.mp hdigit)
  have hnonempty : List.replicate zeros 0 ++ digits.reverse ≠ [] := by
    simp [hne]
  rw [hfield, readNumber_field hsign before behind hnonempty
    (digitValue_field type h16 zeros) hall, foldl_digits]

theorem readNumber_fieldShown_foreign (hsign : IsSign sign) (h16 : ∀ d ∈ digits, d < 16)
    {base : ℕ} (hbase : ∃ d ∈ digits, base ≤ d) (zeropad left : Bool) : readNumber base
        (fieldShown sign (digits.map (digitChar type)) precision size zeropad left true) =
      none := by
  rcases exists_fieldShown sign digits precision size type zeropad left with
    ⟨before, zeros, behind, hfield⟩
  rcases hbase with ⟨d, hd, hle⟩
  rw [hfield]
  exact readNumber_foreign hsign before (digitValue_field type h16 zeros)
    ⟨d, mem_append_right _ (mem_reverse.mpr hd), hle⟩

variable (sign)

theorem le_length_fieldShown (tmp : List Char) (s : ℤ) (zeropad left : Bool) :
    s ≤ ((fieldShown sign tmp (max precision tmp.length) (s - max precision tmp.length)
      zeropad left true).length : ℤ) := by
  have hsign : (signWidth sign true : ℤ) = (sign.toList.length : ℤ) := by
    cases sign with
    | none | some sign => rfl
  unfold fieldShown fieldBody
  split_ifs
  all_goals
    simp only [length_append, length_replicate, length_reverse]
    lia

end Fields

theorem isSign_numberSign (num : ℤ) (type : Flags) : IsSign (numberSign num type) := by
  unfold numberSign getSign IsSign
  split_ifs
  all_goals simp

section Integers

variable {spec : IntSpec} {word : UInt32} {num fieldWidth : ℤ} {flags : Flags}

theorem Prints.value_eq (h : Prints spec word num fieldWidth flags) : spec.value word =
        (if numberSign num flags = some '-' then
          -(((getSign flags num).2 % 4294967296).toNat : ℤ)
        else (((getSign flags num).2 % 4294967296).toNat : ℤ)) ∧
      -4294967296 < (getSign flags num).2 ∧ (getSign flags num).2 < 4294967296 := by
  have hbounds := h.bounds
  have hmod : ∀ x : ℤ, 0 ≤ x → x < 4294967296 → ((x % 4294967296).toNat : ℤ) = x := by
    intro x hnonneg hlt
    lia
  by_cases hsigned : spec.conv.Signed
  · have hsign : flags.sign = true := h.sign.trans (decide_eq_true hsigned)
    rw [← h.signed hsigned]
    by_cases hneg : num < 0
    · have hget : getSign flags num = (some '-', -num) := by
        simp [getSign, hsign, hneg]
      rw [numberSign, hget]
      rw [hmod (-num) (by lia) (by lia)]
      lia
    · have hget : (getSign flags num).1 ≠ some '-' ∧ (getSign flags num).2 = num := by
        unfold getSign
        split_ifs
        all_goals simp
      rw [numberSign, if_neg hget.1, hget.2, hmod num (by lia) hbounds.2]
      exact ⟨rfl, hbounds⟩
  · have hsign : flags.sign = false := h.sign.trans (decide_eq_false hsigned)
    have hget : getSign flags num = (none, num) := by
      simp [getSign, hsign]
    rw [← h.unsigned hsigned, numberSign, hget, if_neg (by simp),
      Int.toNat_of_nonneg (Int.emod_nonneg num (by decide))]
    exact ⟨rfl, hbounds⟩

theorem divisor_base (conv : IntConversion) :
    divisor conv.base = if conv = .o then 16 else conv.base := by
  cases conv
  all_goals rfl

theorem Prints.reads (h : Prints spec word num fieldWidth flags) (precision : ℤ) :
    readNumber spec.conv.base (numberShown num spec.conv.base fieldWidth precision flags true) =
      some (spec.value word) ↔ (spec.conv = .o → spec.value word < 8) := by
  rcases h.value_eq with ⟨hvalue, hbounds⟩
  have hsign := isSign_numberSign num flags
  have htmp : signedTmp num spec.conv.base flags =
      (tmpDigits (divisor spec.conv.base) ((getSign flags num).2 % 4294967296).toNat).map
        (digitChar flags) := numberTmp_eq flags spec.conv.base hbounds
  have hb := one_lt_divisor spec.conv.base
  generalize ((getSign flags num).2 % 4294967296).toNat = n at hvalue htmp
  have hle16 : divisor spec.conv.base ≤ 16 := by
    unfold divisor
    split_ifs
    · decide
    · decide
  have h16 : ∀ d ∈ tmpDigits (divisor spec.conv.base) n, d < 16 :=
    fun d hd => (tmpDigits_lt hb hd).trans_le hle16
  have hne := tmpDigits_ne_nil (divisor spec.conv.base) n
  unfold numberShown
  rw [htmp]
  by_cases hoctal : spec.conv = .o
  · have hplus : numberSign num flags ≠ some '-' := by
      have hfalse := h.sign
      rw [hoctal] at hfalse
      have hflag : flags.sign = false := hfalse
      simp [numberSign, getSign, hflag]
    rw [if_neg hplus] at hvalue
    have hsixteen : divisor spec.conv.base = 16 := by
      rw [divisor_base, if_pos hoctal]
    have height : spec.conv.base = 8 := by
      rw [hoctal]
      rfl
    rw [hsixteen] at h16 hne ⊢
    rw [hvalue, height]
    have hless : (spec.conv = .o → (n : ℤ) < 8) ↔ n < 8 := by
      rw [forall_prop_of_true hoctal]
      omega
    rw [hless, ← octal_iff]
    by_cases hsmall : ∀ d ∈ tmpDigits 16 n, d < 8
    · rw [readNumber_fieldShown _ _ flags hsign hne h16 hsmall, if_neg hplus,
        Option.some.injEq, Nat.cast_inj]
      exact (and_iff_right hsmall).symm
    · have hlarge : ∃ d ∈ tmpDigits 16 n, 8 ≤ d := by
        push Not at hsmall
        exact hsmall
      rw [readNumber_fieldShown_foreign _ _ flags hsign h16 hlarge]
      exact iff_of_false (Option.some_ne_none _).symm fun h => hsmall h.1
  · have hbase : divisor spec.conv.base = spec.conv.base := by
      rw [divisor_base, if_neg hoctal]
    rw [readNumber_fieldShown _ _ flags hsign hne h16 fun d hd => hbase ▸ tmpDigits_lt hb hd,
      hbase, ofDigits_tmpDigits, ← hvalue]
    exact iff_of_true rfl fun heq => absurd heq hoctal

theorem Prints.width_le (h : Prints spec word num fieldWidth flags) (precision : ℤ) :
    spec.width.value ≤
      ((numberShown num spec.conv.base fieldWidth precision flags true).length : ℤ) := by
  have hwidth := le_length_fieldShown (numberSign num flags) precision
    (signedTmp num spec.conv.base flags) fieldWidth flags.zeropad flags.left
  exact h.width.trans (max_le hwidth (Int.natCast_nonneg _))

end Integers

def printed (strings : UInt32 → CString) (fmt : List Char) (args : VaList) : List Char :=
  (directives strings fmt args).foldl (printDirective textSink) []

/-- The field of an integer conversion is at least as long as its width, and denotes the
argument except for `%o` of a number from eight on. -/
theorem printed_integer_iff
    (strings : UInt32 → CString) (spec : IntSpec) (word : UInt32) (fmt : List Char)
    (args : VaList) : ∃ field, printed strings ('%' :: (spec.chars ++ fmt)) (spec.args word args) =
        field ++ printed strings fmt args ∧
      (readNumber spec.conv.base field = some (spec.value word) ∧ spec.width.value ≤ field.length ↔
        (spec.conv = .o → spec.value word < 8)) := by
  rcases directives_spec strings spec word fmt args with
    ⟨num, fieldWidth, precision, flags, hdirectives, hprints⟩
  refine ⟨numberShown num spec.conv.base fieldWidth precision flags true, ?_, ?_⟩
  · rw [printed, printed, foldl_textSink, foldl_textSink, hdirectives, fullText_cons]
    rfl
  · rw [hprints.reads precision]
    exact and_iff_left (hprints.width_le precision)

def octal : IntSpec := ⟨[], .none, .none, .none, .o, nofun⟩

/-- `%o` prints in base sixteen. -/
theorem printed_octal_wrong :
    printed noStrings ('%' :: (octal.chars ++ [])) (octal.args 16 minusOne) = ['1', '0'] ∧
    readNumber octal.conv.base ['1', '0'] = some 8 ∧ octal.value 16 = 16 ∧
    printed noStrings ('%' :: (octal.chars ++ [])) (octal.args 10 minusOne) = ['a'] ∧
    readNumber octal.conv.base ['a'] = none := by
  decide +kernel

end RtThread.Printf
