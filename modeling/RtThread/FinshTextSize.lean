import RtThread.FinshStack

/-!
# The size of compiled lines

The emitters write without a bound check, so a line fits the text segment when
the bytes of its nodes, which depend on the kind of the node and on the width of
its leftmost leaf, and the `POP`s between its statements add up to at most
`FINSH_TEXT_MAX`.
-/

namespace RtThread.Finsh

open List Finsh.Tree

/-! ## Bytes of a node -/

def widthBytes (dataType : ℕ) (bytes : Width → ℕ) : ℕ :=
  match dataWidth dataType with
  | some w => bytes w
  | none => 0

def Symbol.textBytes (vars : FinshVars) (symbol : Symbol) : ℕ :=
  match symbol.type vars with
  | some type => if type.loadWidth.isSome then 5 else 0
  | none => 5

def Tree.isName : Tree → Bool
  | .nil => false
  | .node info _ _ => info.nodeType == .id && info.id.isSome

def Tree.storeType (vars : FinshVars) : Tree → ℕ
  | .nil => 0
  | .node info child sibling =>
    if info.nodeType = .getvalue then Tree.leadType vars (.node info child sibling) % 16
    else Tree.leadType vars (.node info child sibling)

/-- The bytes of a node behind those of its children; `isAddr` tells that its parent wants an
address. -/
def NodeInfo.textBytes (vars : FinshVars) (isAddr : Bool) (info : NodeInfo) (child : Tree) : ℕ :=
  match info.nodeType with
  | .id => (info.id.map (Symbol.textBytes vars)).getD 0
  | .valueChar => 2
  | .valueInt | .valueLong | .valueNull | .valueString => 5
  | .binary _ | .bitwise =>
    widthBytes (Tree.leadType vars (.node info child .nil)) fun _ => 1
  | .func => if child = .nil then 0 else 2
  | .assign => if child.isTarget then widthBytes (child.storeType vars) fun _ => 2 else 0
  | .preinc | .predec =>
    if child.isName then widthBytes (child.leadType vars) fun w => 9 + w.bytes else 0
  | .inc | .dec =>
    if child.isName then widthBytes (child.leadType vars) fun w => 14 + w.bytes else 0
  | .null => 4
  | .getvalue =>
    if info.checkedAddress isAddr then 0
    else widthBytes (Tree.leadType vars (.node info child .nil)) fun _ => 1
  | .getaddr | .cast => 0

def Tree.nodeBytes (vars : FinshVars) : Bool → Tree → ℕ
  | _, .nil => 0
  | isAddr, .node info child sibling =>
    child.nodeBytes vars (childAddress info.nodeType isAddr) +
      info.textBytes vars isAddr child + sibling.nodeBytes vars false

def Tree.textBytes (vars : FinshVars) (root : Tree) : ℕ :=
  root.nodeBytes vars false + (root.length - 1)

/-! ## Nodes the compiler rejects -/

def NodeInfo.UnknownName (vars : FinshVars) (info : NodeInfo) (child : Tree) : Prop :=
  child = .nil ∧ info.nodeType = .id ∧ info.id.bind (Symbol.type vars) = some .unknown

def NodeInfo.Unstorable (vars : FinshVars) (info : NodeInfo) (child : Tree) : Prop :=
  info.nodeType = .cast ∨
    info.nodeType = .assign ∧ child.isTarget = true ∧ dataWidth (child.storeType vars) = none

def Tree.HasNode (p : NodeInfo → Tree → Prop) : Tree → Prop
  | .nil => False
  | .node info child sibling => p info child ∨ child.HasNode p ∨ sibling.HasNode p

def Tree.Rejected (vars : FinshVars) (root : Tree) : Prop :=
  root.HasNode (NodeInfo.UnknownName vars) ∨ root.HasNode (NodeInfo.Unstorable vars)

def TextSafe (env : FinshEnv) (vars : FinshVars) (root : Tree) : Prop :=
  (encodeAll (compilerCode env vars root)).length ≤ FINSH_TEXT_MAX ∨
    compilerErrors env vars root ≠ []

/-! ## The emitters -/

def emittedBytes (code : List Emit) : ℕ := (encodeAll (code.filterMap Emit.instr)).length

section Emitters

variable {env : FinshEnv} {vars : FinshVars} {info : NodeInfo} {child sibling : Tree}
  {isAddr : Bool}

@[simp] theorem emittedBytes_nil : emittedBytes [] = 0 := by simp [emittedBytes, encodeAll]

@[simp] theorem emittedBytes_cons (op : Opcode) (operand : BitVec 32) (code : List Emit) :
    emittedBytes (emit op operand :: code) = 1 + op.operandBytes + emittedBytes code := by
  have hcode : (emit op operand :: code).filterMap Emit.instr =
      ⟨op, operand⟩ :: code.filterMap Emit.instr := rfl
  rw [emittedBytes, hcode, encodeAll, flatMap_cons, length_append, Instr.length_encode]
  rfl

theorem emittedBytes_append (code code' : List Emit) :
    emittedBytes (code ++ code') = emittedBytes code + emittedBytes code' := by
  simp only [emittedBytes, filterMap_append, encodeAll_append, length_append]

theorem emittedBytes_compileWidth (dataType : ℕ) (code : Width → List Emit) :
    emittedBytes (compileWidth dataType code) =
      widthBytes dataType fun w => emittedBytes (code w) := by
  unfold compileWidth widthBytes
  cases dataWidth dataType <;> rfl

theorem emittedBytes_compileLoad (type : FinshType) (address : Bool) (addr : BitVec 32) :
    emittedBytes (compileLoad type address addr) = if type.loadWidth.isSome then 5 else 0 := by
  unfold compileLoad
  cases type.loadWidth with
  | none => rfl
  | some w => cases address <;> simp [Opcode.operandBytes, Width.bytes]

theorem emittedBytes_compileStore (dataType : ℕ) :
    emittedBytes (compileStore dataType) = widthBytes dataType fun _ => 2 := by
  unfold compileStore widthBytes
  cases dataWidth dataType with
  | none => rfl
  | some w => simp [Opcode.operandBytes]

theorem emittedBytes_compileId :
    emittedBytes (compileId env vars info) = (info.id.map (Symbol.textBytes vars)).getD 0 := by
  unfold compileId
  cases info.id with
  | none => rfl
  | some symbol =>
    cases symbol with
    | var i | sysvar s => exact emittedBytes_compileLoad _ _ _
    | syscall f => simp [Opcode.operandBytes, Width.bytes, Symbol.textBytes, Symbol.type]

theorem emittedBytes_compileIncrement {bytes : Width → ℕ}
    {code : BitVec 32 → Width → List Emit} (hcode : ∀ addr w, emittedBytes (code addr w) = bytes w) :
    emittedBytes (compileIncrement env info child code) =
      if child.isName then widthBytes info.dataType bytes else 0 := by
  unfold compileIncrement isName
  cases child with
  | nil => rfl
  | node first grandchild next =>
    by_cases hid : first.nodeType = .id
    · cases hsymbol : first.id with
      | none => simp [hid, hsymbol]
      | some symbol =>
        simp only [hid, hsymbol, emittedBytes_compileWidth, hcode]
        rfl
    · have hfalse : (first.nodeType == .id) = false := by simpa using hid
      simp only [hfalse, Bool.false_and]
      split
      · exact absurd ‹_› hid
      · rfl

theorem isName_typeCheck (tree : Tree) :
    (finshTypeCheck vars isAddr tree).1.isName = tree.isName := by
  cases tree <;> rfl

theorem emittedBytes_func (tree : Tree) (info : NodeInfo) (hfunc : info.nodeType = .func) :
    emittedBytes (compileNode env vars info tree) = if tree = .nil then 0 else 2 := by
  unfold compileNode
  rw [hfunc]
  cases tree with
  | nil => rfl
  | node first grandchild next => simp [Opcode.operandBytes]

theorem emittedBytes_assign (tree : Tree) (hassign : info.nodeType = .assign) :
    emittedBytes (compileNode env vars info (finshTypeCheck vars isAddr tree).1) =
      if tree.isTarget then widthBytes (tree.storeType vars) fun _ => 2 else 0 := by
  unfold compileNode
  rw [hassign]
  cases tree with
  | nil => rfl
  | node first grandchild next =>
    rw [typeCheck_node]
    by_cases hid : first.nodeType = .id
    · have hvalue : first.nodeType ≠ .getvalue := by simp [hid]
      have htarget : (node first grandchild next).isTarget = true := by
        simp [isTarget, hid]
      rw [if_pos htarget, storeType, if_neg hvalue]
      simp only [if_pos hid]
      exact emittedBytes_compileStore _
    · by_cases hvalue : first.nodeType = .getvalue
      · have htarget : (node first grandchild next).isTarget = true := by
          simp [isTarget, hvalue]
        rw [if_pos htarget, storeType, if_pos hvalue]
        simp only [if_neg hid, if_pos hvalue]
        exact emittedBytes_compileStore _
      · have htarget : ¬(node first grandchild next).isTarget = true := by
          simp [isTarget, hid, hvalue]
        rw [if_neg htarget]
        simp only [if_neg hid, if_neg hvalue]
        rfl

theorem emittedBytes_compilePrefix (op : BinOp) (addr : BitVec 32) (w : Width) :
    emittedBytes (compilePrefix op addr w) = 9 + w.bytes := by
  simp only [compilePrefix, emittedBytes_cons, emittedBytes_nil, Opcode.operandBytes]
  omega

theorem emittedBytes_compileSuffix (op : BinOp) (addr : BitVec 32) (w : Width) :
    emittedBytes (compileSuffix op addr w) = 14 + w.bytes := by
  simp only [compileSuffix, emittedBytes_cons, emittedBytes_nil, Opcode.operandBytes, Width.bytes]
  omega

theorem leadType_of_child (hchild : child ≠ .nil) :
    Tree.leadType vars (.node info child sibling) = child.leadType vars := by
  rw [leadType, if_neg hchild]

theorem emittedBytes_increment {info' : NodeInfo} {bytes : Width → ℕ}
    {code : BitVec 32 → Width → List Emit}
    (hdata : info'.dataType = Tree.leadType vars (.node info child .nil))
    (hcode : ∀ addr w, emittedBytes (code addr w) = bytes w) :
    emittedBytes (compileIncrement env info' (finshTypeCheck vars isAddr child).1 code) =
      if child.isName then widthBytes (child.leadType vars) bytes else 0 := by
  rw [emittedBytes_compileIncrement hcode, isName_typeCheck, hdata]
  cases hname : child.isName with
  | false => rfl
  | true =>
    have hchild : child ≠ .nil := by
      rintro rfl
      cases hname
    rw [leadType_of_child hchild]

theorem emittedBytes_compileNode : emittedBytes (compileNode env vars
        { info with
          address := info.checkedAddress isAddr
          dataType := Tree.leadType vars (.node info child sibling) }
        (finshTypeCheck vars (childAddress info.nodeType isAddr) child).1) =
      info.textBytes vars isAddr child := by
  have hlead : leadType vars (.node info child .nil) =
      leadType vars (.node info child sibling) := rfl
  cases htype : info.nodeType with
  | func =>
    rw [emittedBytes_func _ _ rfl, NodeInfo.textBytes, htype]
    simp only [typeCheck_eq_nil]
  | assign =>
    rw [NodeInfo.textBytes, htype]
    exact emittedBytes_assign child rfl
  | id =>
    simp only [compileNode, NodeInfo.textBytes, htype]
    exact emittedBytes_compileId
  | binary op | bitwise =>
    simp only [compileNode, NodeInfo.textBytes, htype, emittedBytes_compileWidth, hlead]
    rfl
  | preinc | predec =>
    simp only [compileNode, NodeInfo.textBytes, htype]
    exact emittedBytes_increment rfl (emittedBytes_compilePrefix _)
  | inc | dec =>
    simp only [compileNode, NodeInfo.textBytes, htype]
    exact emittedBytes_increment rfl (emittedBytes_compileSuffix _)
  | getvalue =>
    simp only [compileNode, NodeInfo.textBytes, htype, hlead]
    split
    · rfl
    · exact emittedBytes_compileWidth _ _
  | valueChar | valueInt | valueLong | valueString | valueNull | null | getaddr | cast =>
    simp only [compileNode, NodeInfo.textBytes, htype]
    rfl

/-! ## Lines -/

theorem emittedBytes_finshCompile (tree : Tree) (isAddr : Bool) :
    emittedBytes (finshCompile env vars (finshTypeCheck vars isAddr tree).1) =
      tree.nodeBytes vars isAddr := by
  induction tree generalizing isAddr with
  | nil => rfl
  | node info child sibling ihchild ihsibling =>
    rw [typeCheck_node, finshCompile, emittedBytes_append, emittedBytes_append, ihchild,
      ihsibling, emittedBytes_compileNode, nodeBytes]

theorem emittedBytes_compileStatements (tree : Tree) :
    emittedBytes (compileStatements env vars (finshTypeCheck vars false tree).1) =
      tree.textBytes vars := by
  induction tree with
  | nil => rfl
  | node info child sibling _ ih =>
    have hone := @emittedBytes_finshCompile env vars (.node info child .nil) false
    rw [typeCheck_node] at hone ⊢
    have hsame : finshTypeCheck vars false .nil = (.nil, []) := rfl
    rw [hsame] at hone
    rw [compileStatements, emittedBytes_append, emittedBytes_append, ih]
    simp only [leadType] at hone ⊢
    rw [hone]
    simp only [Tree.textBytes, Tree.nodeBytes, Tree.length, typeCheck_eq_nil]
    cases sibling with
    | nil => simp [Tree.nodeBytes, Tree.length]
    | node next grandchild rest =>
      simp only [reduceCtorEq, if_false, emittedBytes_cons, emittedBytes_nil,
        Opcode.operandBytes, Tree.length]
      lia

/-! ## Errors -/

theorem errors_leafDataType : (leafDataType vars info).2 = [] ↔
      ¬(info.nodeType = .id ∧ info.id.bind (Symbol.type vars) = some .unknown) := by
  unfold leafDataType
  cases htype : info.nodeType with
  | id =>
    cases hvar : info.id.bind (Symbol.type vars) with
    | none => simp
    | some type => cases type <;> simp [FinshType.dataType]
  | _ => simp

theorem errors_finshTypeCheck (tree : Tree) (isAddr : Bool) :
    (finshTypeCheck vars isAddr tree).2 = [] ↔ ¬tree.HasNode (NodeInfo.UnknownName vars) := by
  induction tree generalizing isAddr with
  | nil => simp [finshTypeCheck, Tree.HasNode]
  | node info child sibling ihchild ihsibling =>
    simp only [finshTypeCheck, append_eq_nil_iff, ihchild, ihsibling, HasNode, not_or]
    have hown : (match (finshTypeCheck vars (childAddress info.nodeType isAddr) child).1 with
        | .nil => leafDataType vars info
        | .node first _ _ => (first.dataType, [])).2 = [] ↔ ¬info.UnknownName vars child := by
      cases child with
      | nil =>
        rw [NodeInfo.UnknownName, eq_self, true_and]
        exact errors_leafDataType
      | node first grandchild next => simp [typeCheck_node, NodeInfo.UnknownName]
    refine (and_congr_right' hown).trans ?_
    tauto

theorem errors_compileStore (dataType : ℕ) :
    (compileStore dataType).filterMap Emit.errorType = [] ↔ dataWidth dataType ≠ none := by
  unfold compileStore
  cases dataWidth dataType <;> simp [emit, Emit.errorType]

theorem errors_assign (tree : Tree) (hassign : info.nodeType = .assign) :
    (compileNode env vars info (finshTypeCheck vars isAddr tree).1).filterMap Emit.errorType = [] ↔
      ¬(tree.isTarget = true ∧ dataWidth (tree.storeType vars) = none) := by
  unfold compileNode
  rw [hassign]
  cases tree with
  | nil => simp [finshTypeCheck, isTarget]
  | node first grandchild next =>
    rw [typeCheck_node]
    simp only [isTarget, storeType]
    by_cases hid : first.nodeType = .id
    · simp only [hid, beq_self_eq_true, Bool.true_or, true_and, reduceCtorEq, if_true, if_false]
      exact errors_compileStore _
    · by_cases hvalue : first.nodeType = .getvalue
      · simp only [hvalue, beq_self_eq_true, Bool.or_true, true_and, reduceCtorEq, if_true,
          if_false]
        exact errors_compileStore _
      · simp [hid, hvalue]

theorem errors_compileNode : (compileNode env vars
        { info with
          address := info.checkedAddress isAddr
          dataType := Tree.leadType vars (.node info child sibling) }
        (finshTypeCheck vars (childAddress info.nodeType isAddr) child).1).filterMap
          Emit.errorType = [] ↔ ¬info.Unstorable vars child := by
  unfold NodeInfo.Unstorable
  cases htype : info.nodeType with
  | assign =>
    simp only [reduceCtorEq, false_or, true_and]
    exact errors_assign child rfl
  | id => simp [compileNode, errorType_compileId]
  | binary op | bitwise =>
    simp only [compileNode]
    rw [errorType_compileWidth fun _ => rfl]
    simp
  | preinc | predec | inc | dec =>
    simp only [compileNode]
    rw [errorType_compileIncrement fun _ _ => rfl]
    simp
  | getvalue =>
    simp only [compileNode]
    split
    · simp
    · rw [errorType_compileWidth fun _ => rfl]
      simp
  | func =>
    simp only [compileNode]
    split <;> simp [emit, Emit.errorType]
  | valueChar | valueInt | valueLong | valueString | valueNull | null | getaddr | cast =>
    simp [compileNode, emit, Emit.errorType]

theorem errors_finshCompile (tree : Tree) (isAddr : Bool) :
    (finshCompile env vars (finshTypeCheck vars isAddr tree).1).filterMap Emit.errorType = [] ↔
      ¬tree.HasNode (NodeInfo.Unstorable vars) := by
  induction tree generalizing isAddr with
  | nil => simp [finshTypeCheck, finshCompile, HasNode]
  | node info child sibling ihchild ihsibling =>
    rw [typeCheck_node, finshCompile, filterMap_append, filterMap_append,
      append_eq_nil_iff, append_eq_nil_iff, ihchild, ihsibling, errors_compileNode,
      HasNode]
    tauto

theorem errors_compileStatements (tree : Tree) :
    (compileStatements env vars tree).filterMap Emit.errorType =
      (finshCompile env vars tree).filterMap Emit.errorType := by
  induction tree with
  | nil => rfl
  | node info child sibling _ ih =>
    have hpop : (if sibling = .nil then [] else [emit .pop]).filterMap Emit.errorType = [] := by
      split <;> rfl
    simp only [compileStatements, finshCompile, filterMap_append, append_nil, ih, hpop]

theorem compilerErrors_ne_nil (root : Tree) :
    compilerErrors env vars root ≠ [] ↔ root.Rejected vars := by
  have hnil : compilerErrors env vars root = [] ↔ ¬root.Rejected vars := by
    rw [compilerErrors, append_eq_nil_iff, errors_finshTypeCheck, compilerEmits,
      errors_compileStatements, errors_finshCompile, Rejected, not_or]
  rw [ne_eq, hnil, not_not]

theorem length_compilerCode (root : Tree) :
    (encodeAll (compilerCode env vars root)).length = root.textBytes vars :=
  emittedBytes_compileStatements root

theorem textBytes_node_le (info : NodeInfo) (child : Tree) (isAddr : Bool) :
    info.textBytes vars isAddr child ≤ if child.isName then 18 else 5 := by
  have hwidth : ∀ dataType n, ∀ bytes : Width → ℕ, (∀ w, bytes w ≤ n) →
      widthBytes dataType bytes ≤ n := by
    intro dataType n bytes hbytes
    unfold widthBytes
    cases dataWidth dataType with
    | none => exact Nat.zero_le n
    | some w => exact hbytes w
  have hsymbol : (info.id.map (Symbol.textBytes vars)).getD 0 ≤ 5 := by
    cases info.id with
    | none => exact Nat.zero_le 5
    | some symbol =>
      simp only [Option.map_some, Option.getD_some, Symbol.textBytes]
      repeat' split
      all_goals omega
  have hfive : ∀ n ≤ 5, n ≤ if child.isName then 18 else 5 := by
    intro n hn
    split <;> omega
  have hone : ∀ dataType, ∀ m ≤ 5, widthBytes dataType (fun _ => m) ≤ 5 :=
    fun dataType m hm => hwidth _ _ _ fun _ => hm
  unfold NodeInfo.textBytes
  cases info.nodeType with
  | id => exact hfive _ hsymbol
  | preinc | predec | inc | dec =>
    simp only
    split
    · exact hwidth _ _ _ fun w => by cases w <;> decide
    · exact Nat.zero_le _
  | binary op | bitwise => exact hfive _ (hone _ _ (by omega))
  | func => exact hfive _ (by simp only; split <;> omega)
  | assign =>
    refine hfive _ ?_
    simp only
    split
    · exact hone _ _ (by omega)
    · exact Nat.zero_le _
  | getvalue =>
    refine hfive _ ?_
    simp only
    split
    · exact Nat.zero_le _
    · exact hone _ _ (by omega)
  | _ => exact hfive _ (by simp)

theorem nodeBytes_le (tree : Tree) (isAddr : Bool) :
    tree.nodeBytes vars isAddr + (if tree.isName then 7 else 0) ≤ 12 * tree.size := by
  induction tree generalizing isAddr with
  | nil => exact le_rfl
  | node info child sibling ihchild ihsibling =>
    have hchild := ihchild (childAddress info.nodeType isAddr)
    have hsibling := ihsibling false
    have hown := @textBytes_node_le vars info child isAddr
    rw [nodeBytes, size]
    by_cases hname : (node info child sibling).isName = true
    · have hid : info.nodeType = .id := by
        simp only [isName, Bool.and_eq_true, beq_iff_eq] at hname
        exact hname.1
      have hfive : info.textBytes vars isAddr child ≤ 5 := by
        unfold NodeInfo.textBytes
        rw [hid]
        have hleaf := @textBytes_node_le vars info .nil isAddr
        unfold NodeInfo.textBytes at hleaf
        rw [hid] at hleaf
        exact hleaf
      rw [if_pos hname]
      split at hchild <;> split at hsibling <;> lia
    · rw [if_neg hname]
      split at hown <;> split at hchild <;> split at hsibling <;> lia

theorem textBytes_le (root : Tree) : root.textBytes vars ≤ 12 * root.size := by
  unfold textBytes
  induction root with
  | nil => exact le_rfl
  | node info child sibling _ ih =>
    have hchild := @nodeBytes_le vars child (childAddress info.nodeType false)
    have hown := @textBytes_node_le vars info child false
    simp only [Tree.nodeBytes, Tree.size, Tree.length]
    split at hown <;> split at hchild <;> lia

end Emitters

/-! ## Lines -/

section Lines

variable {env : FinshEnv} {shell : FinshShell} {n : ℕ} {line : List Char}

/-- The code of a line that parses fits the text segment. -/
def LineSafe (env : FinshEnv) (n : ℕ) (line : List Char) (shell : FinshShell) : Prop :=
  ∀ root s, finshParserRun env n line (shell.start line) = some (root, s) → s.errno = .ok →
    TextSafe env s.vars root

def LineFits (env : FinshEnv) (n : ℕ) (line : List Char) (shell : FinshShell) : Prop :=
  ∀ root s, finshParserRun env n line (shell.start line) = some (root, s) → s.errno = .ok →
    root.textBytes s.vars ≤ FINSH_TEXT_MAX ∨ root.Rejected s.vars

/-- A tree is compiled safely exactly when its bytes fit or an error stops it. -/
theorem textSafe_iff {vars : FinshVars} {root : Tree} :
    TextSafe env vars root ↔ root.textBytes vars ≤ FINSH_TEXT_MAX ∨ root.Rejected vars := by
  rw [TextSafe, length_compilerCode, compilerErrors_ne_nil]

/-- The code of a line stays in the text segment exactly when it is short enough or rejected. -/
theorem lineSafe_iff : LineSafe env n line shell ↔ LineFits env n line shell := by
  unfold LineSafe LineFits
  simp only [textSafe_iff]

/-- A line whose tree has at most ten nodes never leaves the text segment. -/
theorem lineSafe_of_size_le
    (hsize : ∀ root s, finshParserRun env n line (shell.start line) = some (root, s) →
      root.size ≤ 10) : LineSafe env n line shell := by
  intro root s hparse _
  have hten := hsize root s hparse
  have hbytes := @textBytes_le s.vars root
  have hmax : FINSH_TEXT_MAX = 128 := rfl
  exact textSafe_iff.mpr (.inl (by omega))

theorem lineSafe_five_increments : LineSafe smallEnv 20 "a++;a++;a++;a++;a++;".toList smallShell := by
  have hline : (finshParserRun smallEnv 20 "a++;a++;a++;a++;a++;".toList
      (smallShell.start "a++;a++;a++;a++;a++;".toList)).map (fun r => r.1.size) = some 10 := by
    decide +kernel
  apply lineSafe_of_size_le
  intro root s hparse
  rw [hparse] at hline
  exact (Option.some.inj hline).le

/-- Six increments on one line. -/
theorem increments_overflow : ¬∀ (env : FinshEnv) (n : ℕ) (line : List Char) (shell : FinshShell),
      LineSafe env n line shell := by
  intro hall
  have hline : (finshParserRun smallEnv 20 "a++;a++;a++;a++;a++;a++;".toList
      (smallShell.start "a++;a++;a++;a++;a++;a++;".toList)).map
        (fun r => (r.2.errno, r.1.size, (encodeAll (compilerCode smallEnv r.2.vars r.1)).length,
          compilerErrors smallEnv r.2.vars r.1)) = some (.ok, 12, 143, []) := by
    decide +kernel
  obtain ⟨⟨root, s⟩, hparse, hresult⟩ := Option.map_eq_some_iff.mp hline
  simp only [Prod.mk.injEq] at hresult
  obtain ⟨herrno, -, hlength, herrors⟩ := hresult
  have hsafe := hall _ _ _ _ root s hparse herrno
  rw [TextSafe, hlength, herrors] at hsafe
  exact absurd hsafe (by decide)

end Lines

end RtThread.Finsh
