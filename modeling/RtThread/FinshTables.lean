import RtThread.FinshToken
import RtThread.FinshHeap

/-!
# Symbols, nodes and errors

The parser works on one state: the tokenizer, the error number, the number of
nodes taken from `global_node_table`, the variables, the string heap and the
memory.  A computation without a defined result gives `none`.
-/

namespace RtThread.Finsh

/-- A string constant made by `finsh_node_new_string`, with the heap and the variables it
found; kept to talk about the constants of a line. -/
structure StringNode where
  ptr : ℕ
  chars : List Char
  heap : FinshHeap
  vars : FinshVars
  memory : Memory

structure FinshState where
  token : FinshToken
  errno : FinshError
  /-- Entries of `global_node_table` in use. -/
  nodes : ℕ
  vars : FinshVars
  heap : FinshHeap
  memory : Memory
  strings : List StringNode

abbrev FinshM := StateT FinshState Option

def finshErrorSet (type : FinshError) : FinshM Unit := fun s =>
  some ((), { s with errno := type })

def strncmpEq (n : ℕ) (x y : List Char) : Bool := x.take n == y.take n

def finshVarLookup (vars : FinshVars) (name : List Char) : Option (Fin FINSH_VARIABLE_MAX) :=
  (List.finRange FINSH_VARIABLE_MAX).find? fun i => strncmpEq FINSH_NAME_MAX (vars i).name name

def finshVarInsert (vars : FinshVars) (name : List Char) (type : FinshType) :
    Option FinshVars :=
  match finshVarLookup vars name with
  | some _ => none
  | none =>
    ((List.finRange FINSH_VARIABLE_MAX).find? fun i => (vars i).type == .unknown).map
      fun empty => Function.update vars empty ⟨name.take FINSH_NAME_MAX, type⟩

def FinshEnv.sysvarLookup (env : FinshEnv) (name : List Char) : Option FinshSysvar :=
  (env.sysvarTable.find? (·.name = name)).or
    (env.sysvarList.find? fun item => name.isPrefixOf item.name)

def FinshEnv.syscallLookup (env : FinshEnv) (name : List Char) : Option FinshSyscall :=
  (env.syscallTable.find? (·.name = name)).or
    (env.syscallList.find? fun item => name.isPrefixOf item.name)

/-- Take an entry of the node table and fill it; a failure is reported as `full`. -/
def finshNodeNew (info : NodeInfo) (full : FinshError) : FinshM Tree := fun s =>
  if s.nodes < FINSH_NODE_MAX then
    some (.node info .nil .nil, { s with nodes := s.nodes + 1 })
  else some (.nil, { s with errno := full })

def finshNodeNewSymbol (symbol : Symbol) : FinshM Tree :=
  finshNodeNew { nodeType := .id, id := some symbol } .memoryFull

/-- A name of `FINSH_NAME_MAX` characters has no terminating zero in `id`: comparing it
with the name of a system symbol reads the array behind what was written. -/
def finshNodeNewId (env : FinshEnv) (id : List Char) : FinshM Tree := fun s =>
  match finshVarLookup s.vars id with
  | some i => finshNodeNewSymbol (.var i) s
  | none =>
    if id.length < FINSH_NAME_MAX then
      match env.sysvarLookup id with
      | some sysvar => finshNodeNewSymbol (.sysvar sysvar) s
      | none =>
        match env.syscallLookup id with
        | some syscall => finshNodeNewSymbol (.syscall syscall) s
        | none => some (.nil, { s with errno := .unknownSymbol })
    else none

def finshNodeNewChar (c : BitVec 32) : FinshM Tree :=
  finshNodeNew { nodeType := .valueChar, value := cellGet .byte c } .memoryFull

def finshNodeNewInt (i : BitVec 32) : FinshM Tree :=
  finshNodeNew { nodeType := .valueInt, value := i } .memoryFull

def finshNodeNewLong (l : BitVec 32) : FinshM Tree :=
  finshNodeNew { nodeType := .valueLong, value := l } .memoryFull

def stringBytes (chars : List Char) : List UInt8 :=
  (chars ++ ['\x00']).map fun ch => UInt8.ofNat ch.toNat

def storeBytes (m : Memory) (addr : ℕ) (bytes : List UInt8) : Memory := fun x =>
  if addr ≤ x then (bytes[x - addr]?).getD (m x) else m x

def finshNodeNewString (env : FinshEnv) (chars : List Char) : FinshM Tree := fun s =>
  if s.nodes < FINSH_NODE_MAX then
    let (block, heap) := finshHeapAllocate env s.vars s.memory (chars.length + 1) s.heap
    let ptr := (block.map env.blockData).getD 0
    let memory := match block with
      | some block => storeBytes s.memory ptr (List.replicate block.length 0)
      | none => s.memory
    some (.node { nodeType := .valueString, value := BitVec.ofNat 32 ptr } .nil .nil,
      { s with
        nodes := s.nodes + 1
        heap := heap
        memory := storeBytes memory ptr (stringBytes chars)
        strings := s.strings ++ [⟨ptr, chars, s.heap, s.vars, s.memory⟩] })
  else some (.nil, { s with errno := .memoryFull })

def finshNodeNewPtr (ptr : BitVec 32) : FinshM Tree :=
  finshNodeNew { nodeType := .valueNull, value := ptr } .memoryFull

def makeSysNode (type : NodeType) (node1 node2 : Tree) : FinshM Tree := fun s =>
  if s.nodes < FINSH_NODE_MAX then
    match node1 with
    | .nil => some (.node { nodeType := type } .nil .nil,
        { s with nodes := s.nodes + 1, errno := .nullNode })
    | .node info child _ => some (.node { nodeType := type } (.node info child node2) .nil,
        { s with nodes := s.nodes + 1 })
  else some (.nil, { s with errno := .nullNode })

end RtThread.Finsh
