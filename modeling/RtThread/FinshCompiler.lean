import RtThread.FinshParser

/-!
# The compiler: type check and byte code

`finsh_type_check` marks each node as address or value and gives it a data
type; `finsh_compile` then emits the byte code, children before parents.  What
a node emits is a list of instructions and errors, in order.
-/

namespace RtThread.Finsh

inductive Opcode
  | noop
  | binary (op : BinOp) (w : Width)
  | bitwise (w : Width)
  | ld (w : Width)
  | ldValue (w : Width)
  | st (w : Width)
  | pop
  | syscall
  | ldValueStack (w : Width)
  deriving DecidableEq, Repr

structure Instr where
  op : Opcode
  operand : BitVec 32 := 0
  deriving DecidableEq, Repr

def Width.index : Width → ℕ
  | .byte => 0
  | .word => 1
  | .dword => 2

def BinOp.opcode : BinOp → ℕ
  | .add => 0x01
  | .sub => 0x04
  | .div => 0x07
  | .mod => 0x0A
  | .mul => 0x0D
  | .and => 0x10
  | .or => 0x13
  | .xor => 0x16
  | .shl => 0x1C
  | .shr => 0x1F

def Opcode.number : Opcode → ℕ
  | .noop => 0x00
  | .binary op w => op.opcode + w.index
  | .bitwise w => 0x19 + w.index
  | .ld w => 0x22 + w.index
  | .ldValue w => 0x25 + w.index
  | .st w => 0x28 + w.index
  | .pop => 0x2B
  | .syscall => 0x2C
  | .ldValueStack w => 0x2D + w.index

def Opcode.operandBytes : Opcode → ℕ
  | .ld w => w.bytes
  | .ldValue _ => 4
  | .syscall => 1
  | _ => 0

def littleEndian : ℕ → ℕ → List UInt8
  | 0, _ => []
  | n + 1, value => UInt8.ofNat value :: littleEndian n (value / 256)

def Instr.encode (instr : Instr) : List UInt8 :=
  UInt8.ofNat instr.op.number :: littleEndian instr.op.operandBytes instr.operand.toNat

inductive Emit
  | code (instr : Instr)
  | error (type : FinshError)
  deriving DecidableEq, Repr

def emit (op : Opcode) (operand : BitVec 32 := 0) : Emit := .code ⟨op, operand⟩

/-- `FINSH_DATA_TYPE_VOID` to `FINSH_DATA_TYPE_DWORD` for the type of a variable. -/
def FinshType.dataType : FinshType → Option ℕ
  | .unknown => none
  | .void => some FINSH_DATA_TYPE_VOID
  | .char | .uchar => some FINSH_DATA_TYPE_BYTE
  | .short | .ushort => some FINSH_DATA_TYPE_WORD
  | _ => some FINSH_DATA_TYPE_DWORD

def Symbol.type (vars : FinshVars) : Symbol → Option FinshType
  | .var i => some (vars i).type
  | .sysvar s => some s.type
  | .syscall _ => none

def childAddress (type : NodeType) (isAddr : Bool) : Bool :=
  if type = .assign ∨ type = .preinc ∨ type = .predec ∨ type = .getaddr then true
  else if type = .getvalue ∧ isAddr then false
  else isAddr

def leafDataType (vars : FinshVars) (info : NodeInfo) : ℕ × List FinshError :=
  match info.nodeType with
  | .id =>
    match info.id.bind (Symbol.type vars) with
    | none => (info.dataType, [])
    | some type =>
      match type.dataType with
      | some dataType => (dataType, [])
      | none => (info.dataType, [.unknownType])
  | .valueChar => (FINSH_DATA_TYPE_BYTE, [])
  | .valueInt | .valueLong | .valueString | .valueNull => (FINSH_DATA_TYPE_DWORD, [])
  | _ => (info.dataType, [])

def NodeInfo.isSyscall (info : NodeInfo) : Bool :=
  match info.id with
  | some (.syscall _) => true
  | _ => false

def finshTypeCheck (vars : FinshVars) : Bool → Tree → Tree × List FinshError
  | _, .nil => (.nil, [])
  | isAddr, .node info child sibling =>
    let child := finshTypeCheck vars (childAddress info.nodeType isAddr) child
    let sibling := finshTypeCheck vars false sibling
    let own := match child.1 with
      | .nil => leafDataType vars info
      | .node first _ _ => (first.dataType, [])
    (.node { info with
        address := if info.isSyscall then info.address else info.address || isAddr
        dataType := own.1 } child.1 sibling.1,
      child.2 ++ sibling.2 ++ own.2)

def dataWidth : ℕ → Option Width
  | 1 => some .byte
  | 2 => some .word
  | 3 => some .dword
  | _ => none

/-- The width with which a variable is loaded: `void` and `void*` are missing. -/
def FinshType.loadWidth : FinshType → Option Width
  | .char | .uchar => some .byte
  | .short | .ushort => some .word
  | .int | .uint | .long | .ulong | .charp | .shortp | .intp | .longp => some .dword
  | .unknown | .void | .voidp => none

def compileLoad (type : FinshType) (address : Bool) (addr : BitVec 32) : List Emit :=
  match type.loadWidth with
  | some w => [if address then emit (.ld .dword) addr else emit (.ldValue w) addr]
  | none => []

def compileId (env : FinshEnv) (vars : FinshVars) (info : NodeInfo) : List Emit :=
  match info.id with
  | some (.syscall f) => [emit (.ld .dword) f.func]
  | some (.sysvar s) => compileLoad s.type info.address s.var
  | some (.var i) => compileLoad (vars i).type info.address (env.valueAddr (.var i))
  | none => []

def compileWidth (dataType : ℕ) (code : Width → List Emit) : List Emit :=
  match dataWidth dataType with
  | some w => code w
  | none => []

def compileStore (dataType : ℕ) : List Emit :=
  match dataWidth dataType with
  | some w => [emit (.st w), emit (.ldValueStack w)]
  | none => [.error .unknownType]

def compilePrefix (op : BinOp) (addr : BitVec 32) (w : Width) : List Emit :=
  [emit (.ldValue w) addr, emit (.ld w) 1, emit (.binary op w), emit (.st w),
    emit (.ldValueStack .dword)]

def compileSuffix (op : BinOp) (addr : BitVec 32) (w : Width) : List Emit :=
  [emit (.ld .dword) addr, emit (.ldValue w) addr, emit (.ld w) 1, emit (.binary op w),
    emit (.st w), emit .pop]

def compileIncrement (env : FinshEnv) (info : NodeInfo) (child : Tree)
    (code : BitVec 32 → Width → List Emit) : List Emit :=
  match child with
  | .node first _ _ =>
    match first.nodeType, first.id with
    | .id, some symbol => compileWidth info.dataType (code (env.valueAddr symbol))
    | _, _ => []
  | .nil => []

/-- The code of a node behind that of its children.  The tree of a line without an error has
a child below every operator. -/
def compileNode (env : FinshEnv) (vars : FinshVars) (info : NodeInfo) (child : Tree) :
    List Emit :=
  match info.nodeType with
  | .id => compileId env vars info
  | .valueChar => [emit (.ld .byte) info.value]
  | .valueInt | .valueLong | .valueNull | .valueString => [emit (.ld .dword) info.value]
  | .binary op => compileWidth info.dataType fun w => [emit (.binary op w)]
  | .bitwise => compileWidth info.dataType fun w => [emit (.bitwise w)]
  | .func =>
    match child with
    | .node _ _ params => [emit .syscall (BitVec.ofNat 32 params.length)]
    | .nil => []
  | .assign =>
    match child with
    | .node first _ _ =>
      if first.nodeType = .id then compileStore first.dataType
      else if first.nodeType = .getvalue then compileStore (first.dataType % 16)
      else []
    | .nil => []
  | .preinc => compileIncrement env info child (compilePrefix .add)
  | .predec => compileIncrement env info child (compilePrefix .sub)
  | .inc => compileIncrement env info child (compileSuffix .add)
  | .dec => compileIncrement env info child (compileSuffix .sub)
  | .null => List.replicate 4 (emit .noop)
  | .getvalue =>
    if info.address then []
    else compileWidth info.dataType fun w => [emit (.ldValueStack w)]
  | .getaddr => []
  | .cast => [.error .unknownNode]

def finshCompile (env : FinshEnv) (vars : FinshVars) : Tree → List Emit
  | .nil => []
  | .node info child sibling =>
    finshCompile env vars child ++ compileNode env vars info child ++ finshCompile env vars sibling

def compileStatements (env : FinshEnv) (vars : FinshVars) : Tree → List Emit
  | .nil => []
  | .node info child sibling =>
    finshCompile env vars (.node info child .nil) ++
      (if sibling = .nil then [] else [emit .pop]) ++ compileStatements env vars sibling

def Emit.instr : Emit → Option Instr
  | .code instr => some instr
  | .error _ => none

def Emit.errorType : Emit → Option FinshError
  | .code _ => none
  | .error type => some type

def encodeAll (code : List Instr) : List UInt8 := code.flatMap Instr.encode

def compilerEmits (env : FinshEnv) (vars : FinshVars) (node : Tree) : List Emit :=
  compileStatements env vars (finshTypeCheck vars false node).1

def compilerCode (env : FinshEnv) (vars : FinshVars) (node : Tree) : List Instr :=
  (compilerEmits env vars node).filterMap Emit.instr

def compilerErrors (env : FinshEnv) (vars : FinshVars) (node : Tree) : List FinshError :=
  (finshTypeCheck vars false node).2 ++ (compilerEmits env vars node).filterMap Emit.errorType

/-- `finsh_compiler_run`: the text segment and the error number.  Code that does not fit is
written behind the text segment. -/
def finshCompilerRun (env : FinshEnv) (vars : FinshVars) (node : Tree) (errno : FinshError) :
    Option (List UInt8 × FinshError) :=
  let bytes := encodeAll (compilerCode env vars node)
  if bytes.length ≤ FINSH_TEXT_MAX then
    some (writeText bytes, ((compilerErrors env vars node).getLast?).getD errno)
  else none
where
  /-- Code at the start of the cleared text segment. -/
  writeText (bytes : List UInt8) : List UInt8 :=
    bytes ++ List.replicate (FINSH_TEXT_MAX - bytes.length) 0

end RtThread.Finsh
