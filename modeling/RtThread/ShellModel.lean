import RtThread.ByteMemory
import RtThread.LineEditor

/-!
# The line editor of the shell

The loop of `finsh_thread_entry` on the bytes that the device delivers, with
history and without the commands of `msh`.  A step that would write a byte
outside `line` has no result.
-/

namespace RtThread.Shell

open Function

abbrev Byte := BitVec 8

def FINSH_CMD_SIZE : ℕ := 80
def FINSH_HISTORY_LINES : ℕ := 5

/-- `while (n--) *tmp++ = *s++` -/
def copyUp : ℕ → ℕ → ℕ → (ℕ → Byte) → ℕ → Byte
  | 0, _, _, m => m
  | n + 1, tmp, s, m => copyUp n (tmp + 1) (s + 1) (update m tmp (m s))

/-- `while (n--) *(--tmp) = *(--s)`, from the ends of the blocks at `tmp` and `s` on. -/
def copyDown : ℕ → ℕ → ℕ → (ℕ → Byte) → ℕ → Byte
  | 0, _, _, m => m
  | n + 1, tmp, s, m => copyDown n tmp s (update m (tmp + n) (m (s + n)))

def rtMemmove (dest src n : ℕ) (m : ℕ → Byte) : ℕ → Byte :=
  if src < dest ∧ dest < src + n then copyDown n dest src m else copyUp n dest src m

theorem copyUp_apply {n tmp s : ℕ} (h : tmp ≤ s ∨ s + n ≤ tmp) (m : ℕ → Byte) (i : ℕ) :
    copyUp n tmp s m i = if tmp ≤ i ∧ i < tmp + n then m (s + (i - tmp)) else m i := by
  induction n generalizing tmp s m with
  | zero => rw [copyUp, if_neg (by lia)]
  | succ n ih =>
    rw [copyUp, ih (by lia)]
    by_cases hi : i = tmp
    · rw [if_neg (by lia), if_pos (by lia), hi, update_self, Nat.sub_self, Nat.add_zero]
    · by_cases hrange : tmp + 1 ≤ i ∧ i < tmp + 1 + n
      · have hsource : s + 1 + (i - (tmp + 1)) = s + (i - tmp) := by lia
        rw [if_pos hrange, if_pos (by lia), hsource, update_of_ne (by lia)]
      · rw [if_neg hrange, if_neg (by lia), update_of_ne hi]

theorem copyDown_apply {n tmp s : ℕ} (h : s ≤ tmp) (m : ℕ → Byte) (i : ℕ) :
    copyDown n tmp s m i = if tmp ≤ i ∧ i < tmp + n then m (s + (i - tmp)) else m i := by
  induction n generalizing m with
  | zero => rw [copyDown, if_neg (by lia)]
  | succ n ih =>
    rw [copyDown, ih]
    by_cases hi : i = tmp + n
    · rw [if_neg (by lia), if_pos (by lia), hi, update_self, Nat.add_sub_cancel_left]
    · by_cases hrange : tmp ≤ i ∧ i < tmp + n
      · rw [if_pos hrange, if_pos (by lia), update_of_ne (by lia)]
      · rw [if_neg hrange, if_neg (by lia), update_of_ne hi]

theorem rtMemmove_apply (dest src n : ℕ) (m : ℕ → Byte) (i : ℕ) :
    rtMemmove dest src n m i = if dest ≤ i ∧ i < dest + n then m (src + (i - dest)) else m i := by
  unfold rtMemmove
  split
  · exact copyDown_apply (by omega) m i
  · exact copyUp_apply (by omega) m i

inductive InputStat
  | waitNormal | waitSpecKey | waitFuncKey
  deriving DecidableEq

/-- `struct finsh_shell`; the two positions are bytes. -/
structure State where
  stat : InputStat
  currentHistory : ℕ
  historyCount : ℕ
  cmdHistory : ℕ → ℕ → Byte
  line : ℕ → Byte
  linePosition : ℕ
  lineCurpos : ℕ

def init : State where
  stat := .waitNormal
  currentHistory := 0
  historyCount := 0
  cmdHistory := fun _ _ => 0
  line := fun _ => 0
  linePosition := 0
  lineCurpos := 0

def inc8 (x : ℕ) : ℕ := (x + 1) % 256
def dec8 (x : ℕ) : ℕ := (x + 255) % 256

/-- `line[i] = b` -/
def writeLine (i : ℕ) (b : Byte) (line : ℕ → Byte) : Option (ℕ → Byte) :=
  if i < FINSH_CMD_SIZE then some (update line i b) else none

def moveLine (dest src n : ℕ) (line : ℕ → Byte) : Option (ℕ → Byte) :=
  if dest + n ≤ FINSH_CMD_SIZE ∧ src + n ≤ FINSH_CMD_SIZE then some (rtMemmove dest src n line)
  else none

def strlen (line : ℕ → Byte) : Option ℕ :=
  (List.range FINSH_CMD_SIZE).find? fun i => line i = 0

def State.historyLine (s : State) : ℕ → Byte := fun i => if i < s.linePosition then s.line i else 0

def State.pushHistory (s : State) : State :=
  let s :=
    if s.linePosition ≠ 0 then
      if FINSH_HISTORY_LINES ≤ s.historyCount then
        { s with
          cmdHistory := fun index =>
            if index < FINSH_HISTORY_LINES - 1 then s.cmdHistory (index + 1)
            else if index = FINSH_HISTORY_LINES - 1 then s.historyLine
            else s.cmdHistory index
          historyCount := FINSH_HISTORY_LINES }
      else
        { s with
          cmdHistory := update s.cmdHistory s.historyCount s.historyLine
          historyCount := s.historyCount + 1 }
    else s
  { s with currentHistory := s.historyCount }

def State.copyHistory (s : State) : Option State :=
  let line := fun i =>
    if i < FINSH_CMD_SIZE then s.cmdHistory s.currentHistory i else s.line i
  (strlen line).map fun length =>
    { s with line := line, linePosition := length % 256, lineCurpos := length % 256 }

def State.upKey (s : State) : Option State :=
  if 0 < s.currentHistory then { s with currentHistory := s.currentHistory - 1 }.copyHistory
  else some { s with currentHistory := 0 }

def State.downKey (s : State) : Option State :=
  if (s.currentHistory : ℤ) < (s.historyCount : ℤ) - 1 then
    { s with currentHistory := s.currentHistory + 1 }.copyHistory
  else if s.historyCount ≠ 0 then
    { s with currentHistory := s.historyCount - 1 }.copyHistory
  else some s

def State.leftKey (s : State) : State :=
  if s.lineCurpos ≠ 0 then { s with lineCurpos := dec8 s.lineCurpos } else s

def State.rightKey (s : State) : State :=
  if s.lineCurpos < s.linePosition then { s with lineCurpos := inc8 s.lineCurpos } else s

def State.backspace (s : State) : Option State :=
  if s.lineCurpos = 0 then some s
  else
    let s := { s with linePosition := dec8 s.linePosition, lineCurpos := dec8 s.lineCurpos }
    if s.lineCurpos < s.linePosition then
      ((moveLine s.lineCurpos (s.lineCurpos + 1) (s.linePosition - s.lineCurpos) s.line).bind
        (writeLine s.linePosition 0)).map fun line => { s with line := line }
    else (writeLine s.linePosition 0 s.line).map fun line => { s with line := line }

def State.endLine (s : State) : Option State :=
  let s := s.pushHistory
  (writeLine s.linePosition 0x3b s.line).map fun _ =>
    { s with line := fun _ => 0, linePosition := 0, lineCurpos := 0 }

def State.normalChar (ch : Byte) (s : State) : Option State :=
  let s := if FINSH_CMD_SIZE ≤ s.linePosition then { s with linePosition := 0 } else s
  (if s.lineCurpos < s.linePosition then
      (moveLine (s.lineCurpos + 1) s.lineCurpos (s.linePosition - s.lineCurpos) s.line).bind
        (writeLine s.lineCurpos ch)
    else writeLine s.linePosition ch s.line).map fun line =>
      { s with line := line, linePosition := inc8 s.linePosition, lineCurpos := inc8 s.lineCurpos }

def State.lineChar (ch : Byte) (s : State) : Option State :=
  if ch = 0x0d ∨ ch = 0x0a then s.endLine else s.normalChar ch

structure Input where
  ch : Byte
  next : Option Byte

def State.plainKey (complete : (ℕ → Byte) → ℕ → Byte) (input : Input) (s : State) :
    Option State :=
  if input.ch = 0x0d then s.lineChar (input.next.getD 0x0d)
  else if input.ch = 0x09 then
    (strlen (complete s.line)).map fun length =>
      { s with line := complete s.line, linePosition := length % 256, lineCurpos := length % 256 }
  else if input.ch = 0x7f ∨ input.ch = 0x08 then s.backspace
  else s.lineChar input.ch

def State.step (complete : (ℕ → Byte) → ℕ → Byte) (s : State) (input : Input) : Option State :=
  if input.ch = 0x1b then some { s with stat := .waitSpecKey }
  else
    match s.stat with
    | .waitSpecKey =>
      if input.ch = 0x5b then some { s with stat := .waitFuncKey }
      else { s with stat := .waitNormal }.plainKey complete input
    | .waitFuncKey =>
      let s := { s with stat := .waitNormal }
      if input.ch = 0x41 then s.upKey
      else if input.ch = 0x42 then s.downKey
      else if input.ch = 0x44 then some s.leftKey
      else if input.ch = 0x43 then some s.rightKey
      else s.plainKey complete input
    | .waitNormal => s.plainKey complete input

def State.run (complete : (ℕ → Byte) → ℕ → Byte) (inputs : List Input) (s : State) :
    Option State :=
  inputs.foldlM (State.step complete) s

end RtThread.Shell
