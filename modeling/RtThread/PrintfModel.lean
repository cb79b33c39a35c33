import RtThread.CharSinks

/-!
# Formatted output

`rt_vsnprintf` reads one directive of the format after the other and prints each into
the buffer; every character stands behind its own test of the buffer's end.  The
configuration is the one of the file: precisions are read, `RT_PRINTF_SPECIAL` and
`RT_PRINTF_LONGLONG` are not defined.  `int` and `long` are integers, since C leaves
their overflow open, and every conversion to a narrower or an unsigned type is written
out.
-/

namespace RtThread.Printf

open Word

def nul : Char := Char.ofNat 0

structure CString where
  chars : List Char
  nul_notMem : nul ∉ chars
  length_lt : chars.length < 4294967296

abbrev VaList := ℕ → UInt32

namespace VaList

def word (args : VaList) : ℤ := ((args 0).toNat : ℤ)

def int (args : VaList) : ℤ := args.word.bmod 4294967296

def rest (args : VaList) : VaList := fun i => args (i + 1)

end VaList

/-- `ZEROPAD` to `LARGE`. -/
structure Flags where
  zeropad : Bool := false
  sign : Bool := false
  plus : Bool := false
  space : Bool := false
  left : Bool := false
  special : Bool := false
  large : Bool := false
  deriving DecidableEq

def isdigit (c : Char) : Bool := decide (((c.toNat : ℤ) - 48) % 4294967296 < 10)

def divide (n base : ℤ) : ℤ × ℤ :=
  if base = 10 then (n % 4294967296 % 10, n % 4294967296 / 10)
  else (n % 4294967296 % 16, n % 4294967296 / 16)

/-- The value of the digits, with `i` read already, and what stands behind them. -/
def skipAtoi : List Char → ℤ → ℤ × List Char
  | [], i => (i, [])
  | c :: fmt, i =>
    if isdigit c then skipAtoi fmt (i * 10 + c.toNat - 48) else (i, c :: fmt)

def smallDigits : List Char := "0123456789abcdef".toList

def largeDigits : List Char := "0123456789ABCDEF".toList

def fillTmp (digits : List Char) (base : ℤ) : ℕ → ℤ → List Char
  | 0, _ => []
  | room + 1, num =>
    if num ≠ 0 then
      let (res, num) := divide num base
      digits.getD res.toNat nul :: fillTmp digits base room num
    else []

/-- `tmp[0]` to `tmp[i - 1]`. -/
def numberTmp (digits : List Char) (base num : ℤ) : List Char :=
  if num = 0 then ['0'] else fillTmp digits base 16 num

/-- The part of `print_number` which gets the sign: `sign`, and `num` without it. -/
def getSign (type : Flags) (num : ℤ) : Option Char × ℤ :=
  if type.sign then
    if num < 0 then (some '-', -num)
    else if type.plus then (some '+', num)
    else if type.space then (some ' ', num)
    else (none, num)
  else (none, num)

variable {σ : Type}

/-- `print_number` from where it knows its digits; `i` is the number of these. -/
def printField (k : Sink σ) (o : σ) (sign : Option Char) (tmp : List Char)
    (precision size : ℤ) (zeropad left : Bool) : σ :=
  let c := if zeropad then '0' else ' '
  let i : ℤ := tmp.length
  let (o, size) :=
    if ¬zeropad ∧ ¬left then
      k.countDown o ' ' 0 (if sign.isSome ∧ 0 < size then size - 1 else size)
    else (o, size)
  let (o, size) := match sign with
    | none => (o, size)
    | some sign => (k.put o sign, if k.fits o then size - 1 else size)
  let (o, size) := if left then (o, size) else k.countDown o c 0 size
  let (o, _) := k.countDown o '0' i precision
  let o := k.puts o tmp.reverse
  (k.countDown o ' ' 0 size).1

def printNumber (k : Sink σ) (o : σ) (num base s precision : ℤ) (type : Flags) : σ :=
  let digits := if type.large then largeDigits else smallDigits
  let type := if type.left then { type with zeropad := false } else type
  let (sign, num) := getSign type num
  let tmp := numberTmp digits base num
  let precision := if precision < tmp.length then (tmp.length : ℤ) else precision
  printField k o sign tmp precision (s - precision) type.zeropad type.left

inductive Directive where
  | literal (text : List Char)
  | char (c : Char) (fieldWidth : ℤ) (flags : Flags)
  | string (s : List Char) (fieldWidth precision : ℤ) (flags : Flags)
  | number (num base fieldWidth precision : ℤ) (flags : Flags)
  deriving DecidableEq

structure Scan where
  fmt : List Char
  args : VaList
  flags : Flags := {}
  fieldWidth : ℤ := -1
  precision : ℤ := -1
  qualifier : Option Char := none

def scanFlags : List Char → Flags → Flags × List Char
  | [], flags => (flags, [])
  | c :: fmt, flags =>
    if c = '-' then scanFlags fmt { flags with left := true }
    else if c = '+' then scanFlags fmt { flags with plus := true }
    else if c = ' ' then scanFlags fmt { flags with space := true }
    else if c = '#' then scanFlags fmt { flags with special := true }
    else if c = '0' then scanFlags fmt { flags with zeropad := true }
    else (flags, c :: fmt)

def scanWidth (s : Scan) : Scan :=
  match s.fmt with
  | [] => s
  | c :: fmt =>
    if isdigit c then
      let (fieldWidth, fmt) := skipAtoi s.fmt 0
      { s with fmt := fmt, fieldWidth := fieldWidth }
    else if c = '*' then
      let fieldWidth := s.args.int
      if fieldWidth < 0 then
        { s with
          fmt := fmt
          args := s.args.rest
          fieldWidth := -fieldWidth
          flags := { s.flags with left := true } }
      else { s with fmt := fmt, args := s.args.rest, fieldWidth := fieldWidth }
    else s

def scanNumber (s : Scan) : Scan :=
  match s.fmt with
  | [] => s
  | c :: fmt =>
    if isdigit c then
      let (precision, fmt) := skipAtoi s.fmt 0
      { s with fmt := fmt, precision := precision }
    else if c = '*' then { s with fmt := fmt, args := s.args.rest, precision := s.args.int }
    else s

def scanPrecision (s : Scan) : Scan :=
  match s.fmt with
  | '.' :: fmt =>
    let s := scanNumber { s with fmt := fmt }
    if s.precision < 0 then { s with precision := 0 } else s
  | _ => s

def scanQualifier (s : Scan) : Scan :=
  match s.fmt with
  | 'h' :: fmt => { s with fmt := fmt, qualifier := some 'h' }
  | 'l' :: fmt => { s with fmt := fmt, qualifier := some 'l' }
  | _ => s

def scan (fmt : List Char) (args : VaList) : Scan :=
  let (flags, fmt) := scanFlags fmt {}
  scanQualifier (scanPrecision (scanWidth { fmt := fmt, args := args, flags := flags }))

def Scan.num (s : Scan) : ℤ :=
  let num : ℤ :=
    if s.qualifier = some 'h' then
      let num := s.args.int % 65536
      if s.flags.sign then num.bmod 65536 % 4294967296 else num
    else
      let num := s.args.word
      if s.flags.sign then num.bmod 4294967296 % 4294967296 else num
  num.bmod 4294967296

def Scan.number (s : Scan) (base : ℤ) (fmt : List Char) : Directive × List Char × VaList :=
  (.number s.num base s.fieldWidth s.precision s.flags, fmt, s.args.rest)

def convert (strings : UInt32 → CString) (s : Scan) : Directive × List Char × VaList :=
  match s.fmt with
  | [] => (.literal ['%'], [], s.args)
  | c :: fmt =>
    match c with
    | 'c' =>
      (.char (Char.ofNat (s.args.int % 256).toNat) s.fieldWidth s.flags, fmt, s.args.rest)
    | 's' =>
      let text := if s.args 0 = 0 then "(NULL)".toList else (strings (s.args 0)).chars
      (.string text s.fieldWidth s.precision s.flags, fmt, s.args.rest)
    | 'p' =>
      let (fieldWidth, flags) := if s.fieldWidth = -1 then (8, { s.flags with zeropad := true })
        else (s.fieldWidth, s.flags)
      (.number s.args.int 16 fieldWidth s.precision flags, fmt, s.args.rest)
    | '%' => (.literal ['%'], fmt, s.args)
    | 'o' => s.number 8 fmt
    | 'X' => { s with flags := { s.flags with large := true } }.number 16 fmt
    | 'x' => s.number 16 fmt
    | 'd' => { s with flags := { s.flags with sign := true } }.number 10 fmt
    | 'i' => { s with flags := { s.flags with sign := true } }.number 10 fmt
    | 'u' => s.number 10 fmt
    | _ => (.literal ['%', c], fmt, s.args)

def stringLength (s : List Char) (precision : ℤ) : ℤ :=
  let len := (s.length : ℤ).bmod 4294967296
  if 0 < precision ∧ precision < len then precision else len

def printDirective (k : Sink σ) (o : σ) : Directive → σ
  | .literal text => k.puts o text
  | .char c fieldWidth flags =>
    let (o, fieldWidth) := if flags.left then (o, fieldWidth) else k.preCountDown o ' ' fieldWidth
    let o := k.put o c
    (k.preCountDown o ' ' fieldWidth).1
  | .string s fieldWidth precision flags =>
    let len := stringLength s precision
    let (o, fieldWidth) := if flags.left then (o, fieldWidth) else k.countDown o ' ' len fieldWidth
    let o := k.puts o (s.take len.toNat)
    (k.countDown o ' ' len fieldWidth).1
  | .number num base fieldWidth precision flags =>
    printNumber k o num base fieldWidth precision flags

section Lengths

theorem skipAtoi_length (fmt : List Char) (i : ℤ) : (skipAtoi fmt i).2.length ≤ fmt.length := by
  induction fmt generalizing i with
  | nil => exact le_rfl
  | cons c fmt ih =>
    unfold skipAtoi
    split_ifs
    · exact (ih _).trans (Nat.le_succ _)
    · exact le_rfl

theorem scanFlags_length (fmt : List Char) (flags : Flags) :
    (scanFlags fmt flags).2.length ≤ fmt.length := by
  induction fmt generalizing flags with
  | nil => exact le_rfl
  | cons c fmt ih =>
    unfold scanFlags
    split_ifs
    all_goals first
      | exact (ih _).trans (Nat.le_succ _)
      | exact le_rfl

theorem scanWidth_length (s : Scan) : (scanWidth s).fmt.length ≤ s.fmt.length := by
  unfold scanWidth
  split
  · exact le_rfl
  · next c fmt hfmt =>
      have hrest : fmt.length ≤ s.fmt.length := by
        rw [hfmt]
        exact Nat.le_succ _
      simp only
      split_ifs
      · exact skipAtoi_length s.fmt 0
      · exact hrest
      · exact hrest
      · exact le_rfl

theorem scanNumber_length (s : Scan) : (scanNumber s).fmt.length ≤ s.fmt.length := by
  unfold scanNumber
  split
  · exact le_rfl
  · next c fmt hfmt =>
      have hrest : fmt.length ≤ s.fmt.length := by
        rw [hfmt]
        exact Nat.le_succ _
      split_ifs
      · exact skipAtoi_length s.fmt 0
      · exact hrest
      · exact le_rfl

theorem scanPrecision_length (s : Scan) : (scanPrecision s).fmt.length ≤ s.fmt.length := by
  unfold scanPrecision
  split
  · next fmt hfmt =>
      have hrest : (scanNumber { s with fmt := fmt }).fmt.length ≤ s.fmt.length := by
        rw [hfmt]
        exact (scanNumber_length { s with fmt := fmt }).trans (Nat.le_succ _)
      simp only
      split_ifs
      · exact hrest
      · exact hrest
  · exact le_rfl

theorem scanQualifier_length (s : Scan) : (scanQualifier s).fmt.length ≤ s.fmt.length := by
  unfold scanQualifier
  split
  · next fmt hfmt =>
      rw [hfmt]
      exact Nat.le_succ _
  · next fmt hfmt =>
      rw [hfmt]
      exact Nat.le_succ _
  · exact le_rfl

theorem scan_length (fmt : List Char) (args : VaList) : (scan fmt args).fmt.length ≤ fmt.length :=
  (scanQualifier_length _).trans ((scanPrecision_length _).trans
    ((scanWidth_length _).trans (scanFlags_length fmt {})))

theorem convert_length (strings : UInt32 → CString) (s : Scan) :
    (convert strings s).2.1.length ≤ s.fmt.length := by
  unfold convert
  split
  · exact Nat.zero_le _
  · next c fmt hfmt =>
      rw [hfmt]
      split
      all_goals exact Nat.le_succ _

end Lengths

def nextDirective (strings : UInt32 → CString) (c : Char) (fmt : List Char) (args : VaList) :
    Directive × List Char × VaList :=
  if c ≠ '%' then (.literal [c], fmt, args) else convert strings (scan fmt args)

theorem nextDirective_length
    (strings : UInt32 → CString) (c : Char) (fmt : List Char) (args : VaList) :
    (nextDirective strings c fmt args).2.1.length ≤ fmt.length := by
  unfold nextDirective
  split_ifs
  · exact le_rfl
  · exact (convert_length strings _).trans (scan_length fmt args)

def directives (strings : UInt32 → CString) (fmt : List Char) (args : VaList) :
    List Directive :=
  match fmt with
  | [] => []
  | c :: fmt =>
    let next := nextDirective strings c fmt args
    next.1 :: directives strings next.2.1 next.2.2
termination_by fmt.length
decreasing_by exact Nat.lt_succ_of_le (nextDirective_length strings c fmt args)

structure Destination where
  buf : ℕ
  size : ℕ
  buf_lt : buf < 4294967296
  size_lt : size < 4294967296

def Destination.last (d : Destination) : ℕ :=
  let last := sub32 (add32 d.buf d.size) 1
  if last < d.buf then 4294967295 else last

def rtVsnprintf (strings : UInt32 → CString) (mem : ℕ → Char) (d : Destination)
    (fmt : CString) (args : VaList) : ℤ × (ℕ → Char) :=
  let k := windowSink d.last
  let w := (directives strings fmt.chars args).foldl (printDirective k) ⟨d.buf, mem⟩
  let mem := if w.str ≤ d.last then Function.update w.mem w.str nul
    else Function.update w.mem d.last nul
  ((sub32 w.str d.buf : ℤ).bmod 4294967296, mem)

def rtSnprintf := rtVsnprintf

/-- `rt_vsprintf` passes `(rt_size_t) -1`. -/
def rtVsprintf (strings : UInt32 → CString) (mem : ℕ → Char) (buf : ℕ)
    (hbuf : buf < 4294967296) (fmt : CString) (args : VaList) : ℤ × (ℕ → Char) :=
  rtVsnprintf strings mem ⟨buf, 4294967295, hbuf, by decide⟩ fmt args

structure LogBuffer where
  rtLogBuf : ℕ
  consolebufSize : ℕ
  size_pos : 0 < consolebufSize
  fits : rtLogBuf + consolebufSize ≤ 4294967296

/-- What the console is given: bytes for `rt_device_write`, with the flag of the device at
that time, or a string for `rt_hw_console_output`. -/
inductive ConsoleOutput where
  | deviceWrite (flag : ℕ) (buffer : List Char)
  | hwConsoleOutput (str : List Char)

structure ConsoleState where
  mem : ℕ → Char
  consoleDevice : Option ℕ
  output : List ConsoleOutput

def rtDeviceFlagStream : ℕ := 64

def bytesAt (mem : ℕ → Char) (addr length : ℕ) : List Char :=
  (List.range length).map fun i => mem (addr + i)

/-- The destination which `rt_kprintf` names: `sizeof(rt_log_buf) - 1` bytes. -/
def LogBuffer.destination (b : LogBuffer) : Destination where
  buf := b.rtLogBuf
  size := b.consolebufSize - 1
  buf_lt := by
    have := b.size_pos
    have := b.fits
    omega
  size_lt := by
    have := b.fits
    omega

def logLength (b : LogBuffer) (returned : ℤ) : ℕ :=
  let length := (returned % 4294967296).toNat
  if b.consolebufSize - 1 < length then b.consolebufSize - 1 else length

def rtKprintf (strings : UInt32 → CString) (b : LogBuffer) (s : ConsoleState)
    (fmt : CString) (args : VaList) : ConsoleState :=
  let (returned, mem) := rtVsnprintf strings s.mem b.destination fmt args
  let length := logLength b returned
  match s.consoleDevice with
  | none =>
    let str := (bytesAt mem b.rtLogBuf b.consolebufSize).takeWhile (· ≠ nul)
    { s with mem := mem, output := s.output ++ [.hwConsoleOutput str] }
  | some oldFlag =>
    let flag := oldFlag ||| rtDeviceFlagStream
    { mem := mem
      consoleDevice := some oldFlag
      output := s.output ++ [.deviceWrite flag (bytesAt mem b.rtLogBuf length)] }

end RtThread.Printf
