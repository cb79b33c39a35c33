import RtThread.ByteMemory

/-!
# Data of the FinSH shell

FinSH parses a line into a tree of at most `FINSH_NODE_MAX` nodes, compiles the
tree to byte code and runs the byte code on a stack machine.  This module has
the enumerations, the tables of symbols and the tree.  `int`, `long` and
pointers have 32 bits.
-/

namespace RtThread.Finsh

def FINSH_NAME_MAX : ℕ := 16
def FINSH_NODE_MAX : ℕ := 16
def FINSH_HEAP_MAX : ℕ := 128
def FINSH_STRING_MAX : ℕ := 128
abbrev FINSH_VARIABLE_MAX : ℕ := 8
def FINSH_STACK_MAX : ℕ := 64
def FINSH_TEXT_MAX : ℕ := 128

inductive FinshError
  | ok | invalidToken | expectType | unknownType | variableExist | expectOperator
  | memoryFull | unknownOp | unknownNode | expectChar | unexpectEnd | unknownToken
  | noFloat | unknownSymbol | nullNode
  deriving DecidableEq, Repr

inductive FinshType
  | unknown | void | voidp | char | uchar | charp | short | ushort | shortp
  | int | uint | intp | long | ulong | longp
  deriving DecidableEq, Repr

def FinshType.number : FinshType → ℕ
  | .unknown => 0
  | .void => 1
  | .voidp => 2
  | .char => 3
  | .uchar => 4
  | .charp => 5
  | .short => 6
  | .ushort => 7
  | .shortp => 8
  | .int => 9
  | .uint => 10
  | .intp => 11
  | .long => 12
  | .ulong => 13
  | .longp => 14

inductive TokenType
  | zero | leftParen | rightParen | comma | semicolon | mul | add | inc | sub | dec
  | div | mod | assign | and | or | xor | bitwise | shl | shr | comments
  | void | char | short | int | long | unsigned
  | valueChar | valueInt | valueLong | valueString | valueNull
  | identifier | bad | eof
  deriving DecidableEq, Repr

inductive BinOp
  | add | sub | mul | div | mod | and | or | xor | shl | shr
  deriving DecidableEq, Repr

inductive Width
  | byte | word | dword
  deriving DecidableEq, Repr

def Width.bytes : Width → ℕ
  | .byte => 1
  | .word => 2
  | .dword => 4

def Width.bits (w : Width) : ℕ := 8 * w.bytes

inductive NodeType
  | id | valueChar | valueInt | valueLong | valueString | valueNull
  | binary (op : BinOp) | bitwise | func | assign | cast | preinc | predec | inc | dec
  | getvalue | getaddr | null
  deriving DecidableEq, Repr

def FINSH_DATA_TYPE_VOID : ℕ := 0
def FINSH_DATA_TYPE_BYTE : ℕ := 1
def FINSH_DATA_TYPE_WORD : ℕ := 2
def FINSH_DATA_TYPE_DWORD : ℕ := 3

/-- An entry of `global_variable`; its value is in memory. -/
structure FinshVar where
  name : List Char
  type : FinshType
  deriving DecidableEq, Repr

structure FinshSysvar where
  name : List Char
  type : FinshType
  var : BitVec 32
  entry : BitVec 32
  deriving DecidableEq, Repr

structure FinshSyscall where
  name : List Char
  func : BitVec 32
  entry : BitVec 32
  deriving DecidableEq, Repr

inductive Symbol
  | var (i : Fin FINSH_VARIABLE_MAX)
  | sysvar (s : FinshSysvar)
  | syscall (f : FinshSyscall)
  deriving DecidableEq, Repr

/-- A node of the tree without its links; `address` is `FINSH_IDTYPE_ADDRESS`. -/
structure NodeInfo where
  nodeType : NodeType
  dataType : ℕ := 0
  id : Option Symbol := none
  address : Bool := false
  value : BitVec 32 := 0
  deriving DecidableEq, Repr

inductive Tree
  | nil
  | node (info : NodeInfo) (child sibling : Tree)
  deriving DecidableEq, Repr

def Tree.length : Tree → ℕ
  | .nil => 0
  | .node _ _ sibling => sibling.length + 1

def cellGet (w : Width) (cell : BitVec 32) : BitVec 32 :=
  (cell.setWidth w.bits).setWidth 32

def cellPut (w : Width) (cell value : BitVec 32) : BitVec 32 :=
  cellGet w value ||| (cell >>> w.bits <<< w.bits)

structure FinshEnv where
  sysvarTable : List FinshSysvar
  sysvarList : List FinshSysvar
  syscallTable : List FinshSyscall
  syscallList : List FinshSyscall
  /-- Address of `global_variable`. -/
  globalVariable : BitVec 32
  /-- Address of `finsh_heap`. -/
  finshHeap : ℕ

/-- `offsetof(struct finsh_var, value)`. -/
def offsetofValue : BitVec 32 := 20

def FinshEnv.entry (env : FinshEnv) : Symbol → BitVec 32
  | .var i => env.globalVariable + BitVec.ofNat 32 (24 * i)
  | .sysvar s => s.entry
  | .syscall f => f.entry

/-- `&(var->value)`; the code also takes it of entries that are no variables. -/
def FinshEnv.valueAddr (env : FinshEnv) (s : Symbol) : BitVec 32 :=
  env.entry s + offsetofValue

end RtThread.Finsh
