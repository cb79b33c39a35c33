import RtThread.FinshCompiler

/-!
# The virtual machine and the command line

The machine has a stack of 32-bit cells, of which byte and word operations
write only the low part.  Where C leaves the result of a division or a shift
open, it is that of the bit vector operation.
-/

namespace RtThread.Finsh

abbrev CallRecord := BitVec 32 × List (BitVec 32)

/-- The machine the byte code runs on: whether `char` is signed, and what the function at an
address does with its parameters and the memory. -/
structure Machine where
  charSigned : Bool
  call : BitVec 32 → List (BitVec 32) → Memory → BitVec 32 × Memory

structure FinshVm where
  /-- `finsh_vm_stack` and the cells around it. -/
  stack : ℤ → BitVec 32
  sp : ℤ
  pc : ℕ
  memory : Memory
  calls : List CallRecord

def Machine.value (machine : Machine) (w : Width) (cell : BitVec 32) : BitVec 32 :=
  match w with
  | .byte =>
    if machine.charSigned then (cell.setWidth 8).signExtend 32 else cellGet .byte cell
  | .word => (cell.setWidth 16).signExtend 32
  | .dword => cell

def BinOp.apply (op : BinOp) (x y : BitVec 32) : BitVec 32 :=
  match op with
  | .add => x + y
  | .sub => x - y
  | .mul => x * y
  | .div => x.sdiv y
  | .mod => x.srem y
  | .and => x &&& y
  | .or => x ||| y
  | .xor => x ^^^ y
  | .shl => x <<< y.toNat
  | .shr => x.sshiftRight y.toNat

def FinshVm.setCell (vm : FinshVm) (i : ℤ) (cell : BitVec 32) : FinshVm :=
  { vm with stack := Function.update vm.stack i cell }

def FinshVm.push (vm : FinshVm) (w : Width) (value : BitVec 32) : FinshVm :=
  { vm.setCell vm.sp (cellPut w (vm.stack vm.sp) value) with sp := vm.sp + 1 }

def loadField (m : Memory) (w : Width) (addr : BitVec 32) : BitVec 32 :=
  BitVec.ofNat 32 (m.load addr.toNat w.bytes)

def FinshVm.parameters (vm : FinshVm) (n : ℕ) : List (BitVec 32) :=
  if n = 0 then [0] else (List.range n).map fun (j : ℕ) => vm.stack (vm.sp - n + j)

def FinshVm.opCall (machine : Machine) (n : ℕ) (vm : FinshVm) : FinshVm :=
  let f := vm.stack (vm.sp - 1 - n)
  let result := machine.call f (vm.parameters n) vm.memory
  { vm.setCell (vm.sp - 1 - n) result.1 with
    sp := vm.sp - n
    memory := result.2
    calls := vm.calls ++ [(f, vm.parameters n)] }

def Opcode.execute (machine : Machine) (op : Opcode) (operand : BitVec 32) (vm : FinshVm) :
    FinshVm :=
  match op with
  | .noop => vm
  | .binary op w =>
    { vm.setCell (vm.sp - 2) (cellPut w (vm.stack (vm.sp - 2)) (op.apply
        (machine.value w (vm.stack (vm.sp - 2))) (machine.value w (vm.stack (vm.sp - 1)))))
      with sp := vm.sp - 1 }
  | .bitwise w =>
    vm.setCell (vm.sp - 1) (cellPut w (vm.stack (vm.sp - 1)) (~~~vm.stack (vm.sp - 1)))
  | .ld w => vm.push w operand
  | .ldValue w => vm.push w (loadField vm.memory w operand)
  | .st w =>
    { vm with
      memory := vm.memory.store (vm.stack (vm.sp - 2)).toNat w.bytes (vm.stack (vm.sp - 1)).toNat
      sp := vm.sp - 1 }
  | .pop => { vm with sp := vm.sp - 1 }
  | .syscall => vm.opCall machine operand.toNat
  | .ldValueStack w =>
    vm.setCell (vm.sp - 1) (cellPut w (vm.stack (vm.sp - 1))
      (loadField vm.memory w (vm.stack (vm.sp - 1))))

def Instr.execute (machine : Machine) (instr : Instr) (vm : FinshVm) : FinshVm :=
  instr.op.execute machine instr.operand vm

def allWidths : List Width := [.byte, .word, .dword]

def allBinOps : List BinOp := [.add, .sub, .mul, .div, .mod, .and, .or, .xor, .shl, .shr]

def opTable : List Opcode :=
  [.noop, .pop, .syscall] ++ allWidths.flatMap fun w =>
    [.bitwise w, .ld w, .ldValue w, .st w, .ldValueStack w] ++ allBinOps.map (.binary · w)

def decodeOp (number : ℕ) : Option Opcode :=
  opTable.find? fun op => op.number = number

def fetch (text : List UInt8) : ℕ → ℕ → ℕ
  | _, 0 => 0
  | pc, n + 1 => ((text[pc]?).getD 0).toNat + 256 * fetch text (pc + 1) n

/-- One round of the loop of `finsh_vm_run`.  There is no operation behind the end of
`op_table`, and a call has room for 16 parameters. -/
def FinshVm.step (machine : Machine) (text : List UInt8) (vm : FinshVm) : Option FinshVm := do
  let number ← text[vm.pc]?
  let op ← decodeOp number.toNat
  let operand := BitVec.ofNat 32 (fetch text (vm.pc + 1) op.operandBytes)
  if op = .syscall ∧ 16 < operand.toNat then none
  else
    let next := op.execute machine operand vm
    some { next with pc := vm.pc + 1 + op.operandBytes }

def vmLoop (machine : Machine) (text : List UInt8) : ℕ → FinshVm → Option FinshVm
  | 0, vm => some vm
  | n + 1, vm =>
    if vm.pc < FINSH_TEXT_MAX then (vm.step machine text).bind (vmLoop machine text n)
    else some vm

def vmStart (stack : ℤ → BitVec 32) (memory : Memory) (calls : List CallRecord) : FinshVm where
  stack := stack
  sp := 0
  pc := 0
  memory := memory
  calls := calls

def finshVmRun (machine : Machine) (text : List UInt8) (stack : ℤ → BitVec 32)
    (memory : Memory) (calls : List CallRecord) : Option FinshVm :=
  vmLoop machine text FINSH_TEXT_MAX (vmStart stack memory calls)

def clearBottom (stack : ℤ → BitVec 32) : ℤ → BitVec 32 := Function.update stack 0 0

structure FinshShell where
  vars : FinshVars
  heap : FinshHeap
  memory : Memory
  stack : ℤ → BitVec 32
  calls : List CallRecord

def FinshShell.start (shell : FinshShell) (line : List Char) : FinshState where
  token := finshTokenInit line
  errno := .ok
  nodes := 0
  vars := shell.vars
  heap := shell.heap
  memory := shell.memory
  strings := []

def FinshShell.reject (shell : FinshShell) (s : FinshState) : FinshShell :=
  { shell with vars := s.vars, heap := s.heap, memory := s.memory }

def finshRunLine (env : FinshEnv) (machine : Machine) (n : ℕ) (line : List Char)
    (shell : FinshShell) : Option (Option (BitVec 32) × FinshShell) := do
  let (root, s) ← finshParserRun env n line (shell.start line)
  if s.errno = .ok then
    let (text, errno) ← finshCompilerRun env s.vars root s.errno
    let stack := clearBottom shell.stack
    if errno = .ok then
      let vm ← finshVmRun machine text stack s.memory shell.calls
      some (some (vm.stack 0),
        { vars := s.vars, heap := s.heap, memory := vm.memory, stack := vm.stack,
          calls := vm.calls })
    else some (none, { shell.reject s with stack := stack })
  else some (none, shell.reject s)

def compileLine (env : FinshEnv) (n : ℕ) (line : List Char) (shell : FinshShell) :
    Option ((FinshError × FinshError) × Tree × List UInt8) := do
  let (root, s) ← finshParserRun env n line (shell.start line)
  let (text, errno) ← finshCompilerRun env s.vars root s.errno
  some ((s.errno, errno), root, text)

theorem of_compileLine
    {env : FinshEnv} {n : ℕ} {line : List Char} {shell : FinshShell} {errno : FinshError}
    {root : Tree} {text : List UInt8}
    (hline : compileLine env n line shell = some ((.ok, errno), root, text)) :
    ∃ s, finshParserRun env n line (shell.start line) = some (root, s) ∧ s.errno = .ok ∧
      finshCompilerRun env s.vars root s.errno = some (text, errno) := by
  obtain ⟨⟨root', s⟩, hparse, hrest⟩ := Option.bind_eq_some_iff.mp hline
  obtain ⟨⟨text', errno'⟩, hcompile, hsome⟩ := Option.bind_eq_some_iff.mp hrest
  simp only [Option.some.injEq, Prod.mk.injEq] at hsome
  obtain ⟨⟨herrno, rfl⟩, rfl, rfl⟩ := hsome
  exact ⟨s, hparse, herrno, hcompile⟩

def smallEnv : FinshEnv where
  sysvarTable := []
  sysvarList := []
  syscallTable := [⟨"hello".toList, 0x08001000, 0x08002000⟩]
  syscallList := []
  globalVariable := 0x20001000
  finshHeap := 0x20002000

def smallVars : FinshVars := fun i =>
  if i = 0 then ⟨['a'], .int⟩
  else if i = 1 then ⟨['c'], .char⟩
  else if i = 2 then ⟨['p'], .voidp⟩
  else ⟨[], .unknown⟩

def smallMachine : Machine where
  charSigned := true
  call := fun _ parameters memory => (parameters.foldr (fun x y => x + y) 0, memory)

def smallShell : FinshShell where
  vars := smallVars
  heap := finshHeapInit
  memory := fun _ => 0
  stack := fun _ => 0
  calls := []

def helloName (args : Tree) : Tree :=
  .node { nodeType := .id, id := some (.syscall ⟨"hello".toList, 0x08001000, 0x08002000⟩) } .nil args

def differenceTree : Tree :=
  .node { nodeType := .assign }
    (.node { nodeType := .id, id := some (.var 0) } .nil
      (.node { nodeType := .binary .sub }
        (.node { nodeType := .valueInt, value := 1 } .nil
          (.node { nodeType := .func }
            (helloName (.node { nodeType := .id, id := some (.var 0) } .nil
              (.node { nodeType := .valueInt, value := 2 } .nil .nil))) .nil)) .nil)) .nil

def sumTree : Tree :=
  .node { nodeType := .binary .add }
    (.node { nodeType := .func } (helloName (.node { nodeType := .valueInt, value := 1 } .nil .nil))
      (.node { nodeType := .valueInt, value := 2 } .nil .nil)) .nil

end RtThread.Finsh
