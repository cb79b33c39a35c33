import RtThread.FinshDefs

/-!
# The tokenizer of FinSH

`token_run` skips blanks and reads one token from the line.  A line is the list
of the characters before the terminating zero.  A write behind one of the
character buffers has no defined result and gives `none`.
-/

namespace RtThread.Finsh

/-- `struct finsh_token`; `string` has all bytes of the buffer. -/
structure FinshToken where
  eof : Bool
  replay : Bool
  position : ℕ
  currentToken : TokenType
  value : BitVec 32
  string : List Char
  line : List Char
  deriving DecidableEq, Repr

def cString (buffer : List Char) : List Char :=
  buffer.takeWhile (· ≠ '\x00')

def writeBuffer (chars buffer : List Char) : List Char :=
  chars ++ buffer.drop chars.length

def finshTokenInit (line : List Char) : FinshToken where
  eof := false
  replay := false
  position := 0
  currentToken := .zero
  value := 0
  string := List.replicate FINSH_STRING_MAX '\x00'
  line := line

def isBlank (ch : Char) : Bool := ch == ' ' || ch == '\t' || ch == '\r'

def isSeparator (ch : Char) : Bool := !(ch.isAlphanum || ch == '_')

def tokenNextChar (self : FinshToken) : Char × FinshToken :=
  if self.eof then ('\x00', self)
  else match self.line[self.position]? with
    | none => ('\x00', { self with eof := true, position := 0 })
    | some ch =>
      if ch = '\n' then ('\x00', { self with eof := true, position := 0 })
      else (ch, { self with position := self.position + 1 })

def tokenPrevChar (self : FinshToken) : FinshToken :=
  if self.eof then self
  else if self.position = 0 then self
  else { self with position := self.position - 1 }

/-- `while (p(ch)) { *p++ = ch; ch = token_next_char(self); }`, for at most `n` rounds: the
characters stored, and the last one read. -/
def scanLoop (p : Char → Bool) : ℕ → Char × FinshToken → List Char × Char × FinshToken
  | 0, next => ([], next)
  | n + 1, (ch, self) =>
    if p ch then
      let rest := scanLoop p n (tokenNextChar self)
      (ch :: rest.1, rest.2)
    else ([], ch, self)

def scanWhile (p : Char → Bool) (next : Char × FinshToken) : List Char × Char × FinshToken :=
  scanLoop p (next.2.line.length + 1) next

def tokenTrimSpace (self : FinshToken) : FinshToken :=
  tokenPrevChar (scanWhile isBlank (tokenNextChar self)).2.2

def tokenGetString (self : FinshToken) : Option FinshToken :=
  let next := tokenNextChar self
  if next.2.eof then some next.2
  else if next.1.isDigit then
    some (tokenPrevChar { next.2 with string := writeBuffer ['\x00'] self.string })
  else
    let (chars, _, last) := scanWhile (fun ch => !isSeparator ch) next
    if chars.length < FINSH_STRING_MAX then
      let reset := tokenPrevChar { last with eof := false }
      some { reset with string := writeBuffer (chars ++ ['\x00']) self.string }
    else none

def finshNameTable : List (List Char × TokenType) :=
  [("void".toList, .void), ("char".toList, .char), ("short".toList, .short),
    ("int".toList, .int), ("long".toList, .long), ("unsigned".toList, .unsigned),
    ("NULL".toList, .valueNull), ("null".toList, .valueNull)]

def tokenMatchName (str : List Char) : Option TokenType :=
  finshNameTable.lookup str

def charOfNat (n : ℕ) : Char := Char.ofNat (n % 256)

/-- `(ch - '0') < b` for an unsigned bound `b`. -/
def isEscapeDigit (b : ℕ) (ch : Char) : Bool := 48 ≤ ch.toNat && ch.toNat < 48 + b

def escapeValue (b : ℕ) (chars : List Char) : Char :=
  charOfNat (chars.foldl (fun result ch => result * b + (ch.toNat - 48)) 0)

def tokenProcEscape (self : FinshToken) : Char × FinshToken :=
  let (ch, next) := tokenNextChar self
  match ch with
  | 'n' => ('\n', next)
  | 't' => ('\t', next)
  | 'v' => ('\x0b', next)
  | 'b' => ('\x08', next)
  | 'r' => ('\r', next)
  | 'f' => ('\x0c', next)
  | 'a' => ('\x07', next)
  | 'x' =>
    let (chars, _, last) := scanWhile (isEscapeDigit 16) (tokenNextChar next)
    (escapeValue 16 chars, tokenPrevChar last)
  | _ =>
    if isEscapeDigit 8 ch then
      let (chars, _, last) := scanWhile (isEscapeDigit 8) (ch, next)
      (escapeValue 8 chars, tokenPrevChar last)
    else ('\x00', next)

/-- The escapes of a character constant; the digits of a number are read, but `atoi` is
given the end of the buffer. -/
def tokenCharEscape (self : FinshToken) : Option (Char × FinshToken) :=
  let (ch, next) := tokenNextChar self
  match ch with
  | 'n' => some ('\n', next)
  | 't' => some ('\t', next)
  | 'v' => some ('\x0b', next)
  | 'b' => some ('\x08', next)
  | 'r' => some ('\r', next)
  | '\\' => some ('\\', next)
  | '\'' => some ('\'', next)
  | _ =>
    let (chars, _, last) := scanWhile Char.isDigit (ch, next)
    if chars.length < 4 then some ('\x00', tokenPrevChar last) else none

def tokenProcChar (self : FinshToken) : Option (Char × FinshToken × FinshError) := do
  let (ch, next) := tokenNextChar self
  let (ch, next) ← if ch = '\\' then tokenCharEscape next else some (ch, next)
  let (quote, last) := tokenNextChar next
  if quote = '\'' then some (ch, last, .ok)
  else some (ch, tokenPrevChar last, .expectChar)

def stringLoop : ℕ → List Char → FinshToken → Option (List Char × FinshToken × FinshError)
  | 0, _, _ => none
  | n + 1, chars, self =>
    let (ch, next) := tokenNextChar self
    if next.eof then some (chars, next, .unexpectEnd)
    else if ch = '\\' then
      let (ch, next) := tokenProcEscape next
      stringLoop n (chars ++ [ch]) next
    else if ch = '"' then some (chars ++ ['\x00'], next, .ok)
    else stringLoop n (chars ++ [ch]) next

def tokenProcString (self : FinshToken) : Option (FinshToken × FinshError) := do
  let (chars, last, error) ← stringLoop FINSH_STRING_MAX [] self
  some ({ last with string := writeBuffer chars last.string }, error)

def digitValue (ch : Char) : ℕ :=
  if 'a' ≤ ch ∧ ch ≤ 'f' then ch.toNat - 97 + 10
  else if 'A' ≤ ch ∧ ch ≤ 'F' then ch.toNat - 65 + 10
  else ch.toNat - 48

def tokenSpecNumber (shift : ℕ) (chars : List Char) : BitVec 32 :=
  chars.foldl (fun v ch => (v <<< shift) ||| BitVec.ofNat 32 (digitValue ch)) 0

def decimalValue (chars : List Char) : BitVec 32 :=
  chars.foldl (fun value ch => value * 10 + BitVec.ofNat 32 (ch.toNat - 48)) 0

def specNumber (shift : ℕ) (p : Char → Bool) (next : Char × FinshToken) :
    Option (BitVec 32 × Char × FinshToken) :=
  let (chars, ch, last) := scanWhile p next
  if chars.length < 128 then some (tokenSpecNumber shift chars, ch, last) else none

/-- `(0|0x|0X|0b|0B)number+(l|L)` -/
def tokenProcNumber (self : FinshToken) : Option FinshToken := do
  let (ch, next) := tokenNextChar self
  let (value, ch, last) ←
    if ch = '0' then
      let (b, digits) := tokenNextChar next
      if b = 'x' ∨ b = 'X' then
        specNumber 4 (fun ch => ch.isDigit || ch.isAlpha) (tokenNextChar digits)
      else if b = 'b' ∨ b = 'B' then
        specNumber 1 (fun ch => ch == '0' || ch == '1') (tokenNextChar digits)
      else specNumber 3 Char.isDigit (b, digits)
    else
      let (chars, ch, last) := scanWhile Char.isDigit (ch, next)
      some (decimalValue chars, ch, last)
  if ch = 'l' ∨ ch = 'L' then some { last with value := value, currentToken := .valueLong }
  else some { tokenPrevChar last with value := value, currentToken := .valueInt }

def tokenDouble (ch : Char) (double single : TokenType) (self : FinshToken) : FinshToken :=
  let (second, next) := tokenNextChar self
  if second = ch then { next with currentToken := double }
  else { tokenPrevChar next with currentToken := single }

def tokenOperator (self : FinshToken) : Option (FinshToken × FinshError) :=
  let (ch, next) := tokenNextChar self
  let single := fun type => some ({ next with currentToken := type }, FinshError.ok)
  match ch with
  | '(' => single .leftParen
  | ')' => single .rightParen
  | ',' => single .comma
  | ';' => single .semicolon
  | '&' => single .and
  | '*' => single .mul
  | '+' => some (tokenDouble '+' .inc .add next, .ok)
  | '-' => some (tokenDouble '-' .dec .sub next, .ok)
  | '/' => some (tokenDouble '/' .eof .div next, .ok)
  | '<' => some (tokenDouble '<' .shl .bad next, .ok)
  | '>' => some (tokenDouble '>' .shr .bad next, .ok)
  | '|' => single .or
  | '%' => single .mod
  | '~' => single .bitwise
  | '^' => single .xor
  | '=' => single .assign
  | '\'' => do
      let (ch, last, error) ← tokenProcChar next
      some ({ last with
        value := cellPut .byte last.value (BitVec.ofNat 32 ch.toNat)
        currentToken := .valueChar }, error)
  | '"' => do
      let (last, error) ← tokenProcString next
      some ({ last with currentToken := .valueString }, error)
  | _ =>
    if ch.isDigit then (tokenProcNumber (tokenPrevChar next)).map (·, FinshError.ok)
    else some ({ next with currentToken := .bad }, .unknownToken)

def tokenRun (self : FinshToken) : Option (FinshToken × FinshError) := do
  let next ← tokenGetString (tokenTrimSpace self)
  if next.eof then some ({ next with currentToken := .eof }, .ok)
  else if cString next.string ≠ [] then
    match tokenMatchName (cString next.string) with
    | some type => some ({ next with currentToken := type }, .ok)
    | none => some ({ next with currentToken := .identifier }, .ok)
  else tokenOperator next

end RtThread.Finsh
