import RtThread.FinshIncrement

/-!
# System calls in expressions

An expression is evaluated from left to right: the values of the children of a
node are on the stack when its own code runs.  This gives every call its
arguments and every operator its operands, except that an operator has the width
of its leftmost leaf, and the name of a system call has none.
-/

namespace RtThread.Finsh

open List Option NodeInfo FinshVm

/-! ## Evaluation -/

abbrev World := Memory × List CallRecord

def World.call (machine : Machine) (f : BitVec 32) (args : List (BitVec 32)) (world : World) :
    BitVec 32 × World :=
  let passed := if args = [] then [0] else args
  let result := machine.call f passed world.1
  (result.1, result.2, world.2 ++ [(f, passed)])

def FinshEnv.symbolValue (env : FinshEnv) (isAddr : Bool) (memory : Memory) : Symbol → BitVec 32
  | .syscall f => f.func
  | .var i => if isAddr then env.varAddr (.var i) else loadField memory .dword (env.varAddr (.var i))
  | .sysvar s =>
    if isAddr then env.varAddr (.sysvar s) else loadField memory .dword (env.varAddr (.sysvar s))

def NodeInfo.evaluate (env : FinshEnv) (machine : Machine) (isAddr : Bool) (info : NodeInfo)
    (values : List (BitVec 32)) (world : World) : BitVec 32 × World :=
  match info.nodeType, values with
  | .id, _ => ((info.id.map (env.symbolValue isAddr world.1)).getD 0, world)
  | .binary op, [x, y] => (op.apply x y, world)
  | .bitwise, [x] => (~~~x, world)
  | .func, f :: args => world.call machine f args
  | .assign, [addr, value] => (value, world.1.store addr.toNat 4 value.toNat, world.2)
  | _, _ => (info.value, world)

def Tree.evaluate (env : FinshEnv) (machine : Machine) :
    Bool → Tree → World → List (BitVec 32) × World
  | _, .nil, world => ([], world)
  | isAddr, .node info child sibling, world =>
    let children := child.evaluate env machine (childAddress info.nodeType isAddr) world
    let own := info.evaluate env machine isAddr children.1 children.2
    let rest := sibling.evaluate env machine false own.2
    (own.1 :: rest.1, rest.2)

/-! ## Expressions with calls -/

def Symbol.IsOperand (vars : FinshVars) (dataType : ℕ) (symbol : Symbol) : Prop :=
  match symbol.type vars with
  | some type => type.dataType = some FINSH_DATA_TYPE_DWORD
  | none => dataType = FINSH_DATA_TYPE_VOID

def Tree.isCallee : Tree → Bool
  | .nil => false
  | .node info _ _ => info.nodeType == .id && info.isSyscall

def Tree.isVariable : Tree → Bool
  | .nil => false
  | .node info _ _ => info.nodeType == .id && !info.isSyscall

/-- The node is an operand of four bytes, an arithmetic or bit operator, a call or an assignment
to a variable. -/
def NodeInfo.InExpr (vars : FinshVars) (info : NodeInfo) (child : Tree) : Prop :=
  match info.nodeType with
  | .id => child = .nil ∧ info.address = false ∧
      ∃ symbol, info.id = some symbol ∧ symbol.IsOperand vars info.dataType
  | .valueInt | .valueLong | .valueString | .valueNull => child = .nil
  | .binary _ => child.length = 2
  | .bitwise => child.length = 1
  | .func => child.isCallee = true
  | .assign => child.length = 2 ∧ child.isVariable = true
  | _ => False

def Tree.CallExpr (vars : FinshVars) : Tree → Prop
  | .nil => True
  | .node info child sibling =>
    info.InExpr vars child ∧ child.CallExpr vars ∧ sibling.CallExpr vars

/-- There is an instruction for the node: a variable that is not `void*`, and an operator whose
first operand has a width. -/
def NodeInfo.Applied (vars : FinshVars) (info : NodeInfo) (child : Tree) : Prop :=
  match info.nodeType with
  | .id => ∀ type, info.id.bind (Symbol.type vars) = some type → type.loadWidth ≠ none
  | .binary _ | .bitwise => dataWidth (child.leadType vars) ≠ none
  | _ => True

def Tree.Applied (vars : FinshVars) : Tree → Prop
  | .nil => True
  | .node info child sibling =>
    info.Applied vars child ∧ child.Applied vars ∧ sibling.Applied vars

/-! ## Runs of code -/

/-- The machine has pushed `values` and left the cells below alone. -/
structure Leaves (vm vm' : FinshVm) (values : List (BitVec 32)) (world : World) : Prop where
  sp : vm'.sp = vm.sp + values.length
  cells : ∀ (j : ℕ) (hj : j < values.length), vm'.stack (vm.sp + j) = values[j]
  below : ∀ i < vm.sp, vm'.stack i = vm.stack i
  memory : vm'.memory = world.1
  calls : vm'.calls = world.2

def checkedCode (env : FinshEnv) (vars : FinshVars) (isAddr : Bool) (tree : Tree) : List Instr :=
  treeCode env vars (finshTypeCheck vars isAddr tree).1

/-- Every node of the tree leaves its value when its code is run, and nothing else: each call is
made once, with the values of its arguments, and each operator is applied to those of its
operands. -/
def EachRight (env : FinshEnv) (machine : Machine) (vars : FinshVars) : Bool → Tree → FinshVm → Prop
  | _, .nil, _ => True
  | isAddr, .node info child sibling, vm =>
    EachRight env machine vars (childAddress info.nodeType isAddr) child vm ∧ Leaves vm
        (execAll machine (checkedCode env vars isAddr (.node info child .nil)) vm)
        ((Tree.node info child .nil).evaluate env machine isAddr (vm.memory, vm.calls)).1
        ((Tree.node info child .nil).evaluate env machine isAddr (vm.memory, vm.calls)).2 ∧
      EachRight env machine vars false sibling
        (execAll machine (checkedCode env vars isAddr (.node info child .nil)) vm)

section Runs

variable {env : FinshEnv} {machine : Machine} {vars : FinshVars} {info : NodeInfo}
  {child sibling tree : Tree} {isAddr : Bool} {vm vm' vm'' : FinshVm}
  {values values' : List (BitVec 32)} {world world' : World} {x y v f : BitVec 32}

theorem Leaves.refl (vm : FinshVm) : Leaves vm vm [] (vm.memory, vm.calls) where
  sp := by simp
  cells := by simp
  below := fun _ _ => rfl
  memory := rfl
  calls := rfl

theorem Leaves.inWorld (h : Leaves vm vm' values world) : (vm'.memory, vm'.calls) = world :=
  Prod.ext h.memory h.calls

theorem Leaves.append (h : Leaves vm vm' values world) (h' : Leaves vm' vm'' values' world') :
    Leaves vm vm'' (values ++ values') world' where
  sp := by
    rw [h'.sp, h.sp, length_append]
    push_cast
    ring
  cells := by
    intro j hj
    by_cases hfirst : j < values.length
    · have hbelow : vm.sp + j < vm'.sp := by
        rw [h.sp]
        lia
      rw [h'.below _ hbelow, h.cells j hfirst, getElem_append_left hfirst]
    · rw [length_append] at hj
      have hcell := h'.cells (j - values.length) (by lia)
      have hindex : vm'.sp + ((j - values.length : ℕ) : ℤ) = vm.sp + j := by
        rw [h.sp]
        lia
      rw [hindex] at hcell
      rw [hcell, getElem_append_right (Nat.not_lt.mp hfirst)]
  below := by
    intro i hi
    have hbelow : i < vm'.sp := by
      rw [h.sp]
      lia
    rw [h'.below i hbelow, h.below i hi]
  memory := h'.memory
  calls := h'.calls

theorem length_evaluate (tree : Tree) (isAddr : Bool) (world : World) :
    (tree.evaluate env machine isAddr world).1.length = tree.length := by
  induction tree generalizing isAddr world with
  | nil => rfl
  | node info child sibling _ ih => simp only [Tree.evaluate, length_cons, ih, Tree.length]

theorem evaluate_node (world : World) :
    (Tree.node info child sibling).evaluate env machine isAddr world =
      (((Tree.node info child .nil).evaluate env machine isAddr world).1 ++
          (sibling.evaluate env machine false
            ((Tree.node info child .nil).evaluate env machine isAddr world).2).1,
        (sibling.evaluate env machine false
          ((Tree.node info child .nil).evaluate env machine isAddr world).2).2) := rfl

def ownCode (env : FinshEnv) (vars : FinshVars) (isAddr : Bool) (info : NodeInfo) (child : Tree) :
    List Instr :=
  nodeCode env vars
    { info with
      address := info.checkedAddress isAddr
      dataType := Tree.leadType vars (.node info child .nil) }
    (finshTypeCheck vars (childAddress info.nodeType isAddr) child).1

theorem checkedCode_node : checkedCode env vars isAddr (.node info child sibling) =
      checkedCode env vars (childAddress info.nodeType isAddr) child ++
        ownCode env vars isAddr info child ++ checkedCode env vars false sibling := by
  rw [checkedCode, typeCheck_node, treeCode_node]
  rfl

theorem checkedCode_single : checkedCode env vars isAddr (.node info child .nil) =
      checkedCode env vars (childAddress info.nodeType isAddr) child ++
        ownCode env vars isAddr info child := by
  rw [checkedCode_node]
  exact append_nil _

theorem EachRight.leaves (h : EachRight env machine vars isAddr tree vm) :
    Leaves vm (execAll machine (checkedCode env vars isAddr tree) vm)
      (tree.evaluate env machine isAddr (vm.memory, vm.calls)).1
      (tree.evaluate env machine isAddr (vm.memory, vm.calls)).2 := by
  induction tree generalizing isAddr vm with
  | nil => exact Leaves.refl vm
  | node info child sibling _ ih =>
    obtain ⟨-, hown, hrest⟩ := h
    have hsibling := ih hrest
    rw [hown.inWorld] at hsibling
    rw [checkedCode_node, ← checkedCode_single, execAll_append, evaluate_node]
    exact hown.append hsibling

/-! ## One instruction -/

theorem leaves_push (vm : FinshVm) (v : BitVec 32) :
    Leaves vm (vm.push .dword v) [v] (vm.memory, vm.calls) where
  sp := rfl
  cells := by
    intro j hj
    obtain rfl : j = 0 := by simpa using hj
    simp [push, setCell, cellPut_dword]
  below := by
    intro i hi
    exact Function.update_of_ne (ne_of_lt hi) _ _
  memory := rfl
  calls := rfl

theorem Leaves.push (h : Leaves vm vm' [] world) : Leaves vm (vm'.push .dword v) [v] world := by
  have happend := h.append (leaves_push vm' v)
  rw [h.inWorld] at happend
  exact happend

theorem Leaves.top (h : Leaves vm vm' [x] world) : vm'.sp - 1 = vm.sp ∧ vm'.stack vm.sp = x := by
  constructor
  · rw [h.sp]
    simp
  · have hcell := h.cells 0 (by simp)
    simpa using hcell

theorem Leaves.topTwo (h : Leaves vm vm' [x, y] world) :
    vm'.sp - 2 = vm.sp ∧ vm'.sp - 1 = vm.sp + 1 ∧ vm'.stack vm.sp = x ∧
      vm'.stack (vm.sp + 1) = y := by
  have hsp := h.sp
  have hfirst := h.cells 0 (by simp)
  have hsecond := h.cells 1 (by simp)
  refine ⟨?_, ?_, by simpa using hfirst, by simpa using hsecond⟩
  · rw [hsp]
    simp
  · rw [hsp]
    simp only [length_cons, length_nil]
    ring

theorem leaves_cell {next : FinshVm} (hbelow : ∀ i < vm.sp, vm'.stack i = vm.stack i)
    (hsp : next.sp = vm.sp + 1) (hstack : next.stack = Function.update vm'.stack vm.sp v)
    (hworld : (next.memory, next.calls) = world) : Leaves vm next [v] world where
  sp := hsp
  cells := by
    intro j hj
    obtain rfl : j = 0 := by simpa using hj
    simp [hstack]
  below := by
    intro i hi
    rw [hstack, Function.update_of_ne (ne_of_lt hi), hbelow i hi]
  memory := congrArg Prod.fst hworld
  calls := congrArg Prod.snd hworld

theorem Leaves.binary (h : Leaves vm vm' [x, y] world) (op : BinOp) :
    Leaves vm ((⟨.binary op .dword, 0⟩ : Instr).execute machine vm') [op.apply x y] world := by
  obtain ⟨htwo, hone, hx, hy⟩ := h.topTwo
  apply leaves_cell h.below
  · simp only [Instr.execute, Opcode.execute, hone]
  · simp only [Instr.execute, Opcode.execute, setCell, htwo, hone, hx, hy, cellPut_dword,
      Machine.value]
  · exact h.inWorld

theorem Leaves.bitwise (h : Leaves vm vm' [x] world) :
    Leaves vm ((⟨.bitwise .dword, 0⟩ : Instr).execute machine vm') [~~~x] world := by
  obtain ⟨hone, hx⟩ := h.top
  apply leaves_cell h.below
  · simp only [Instr.execute, Opcode.execute, setCell, h.sp, length_singleton,
      Nat.cast_one]
  · simp only [Instr.execute, Opcode.execute, setCell, hone, hx, cellPut_dword]
  · exact h.inWorld

theorem Leaves.store (h : Leaves vm vm' [x, v] world) :
    Leaves vm (execAll machine [⟨.st .dword, 0⟩, ⟨.ldValueStack .dword, 0⟩] vm') [v]
      (world.1.store x.toNat 4 v.toNat, world.2) := by
  obtain ⟨htwo, hone, hx, hv⟩ := h.topTwo
  have hback : loadField (world.1.store x.toNat 4 v.toNat) .dword x = v := by
    rw [loadField]
    have hload := Memory.load_store_same world.1 x.toNat 4 v.toNat
    have hmod : v.toNat % 256 ^ 4 = v.toNat := Nat.mod_eq_of_lt v.isLt
    rw [hmod] at hload
    simp only [Width.bytes, hload, BitVec.ofNat_toNat, BitVec.setWidth_eq]
  apply leaves_cell h.below
  · simp only [execAll, foldl_cons, foldl_nil, Instr.execute, Opcode.execute,
      setCell, hone]
  · simp only [execAll, foldl_cons, foldl_nil, Instr.execute, Opcode.execute,
      setCell, htwo, hone, add_sub_cancel_right, hx, hv, h.memory, Width.bytes,
      cellPut_dword, hback]
  · simp only [execAll, foldl_cons, foldl_nil, Instr.execute, Opcode.execute,
      setCell, htwo, hone, hx, hv, h.memory, h.calls, Width.bytes]

theorem Leaves.syscall {args : List (BitVec 32)} (h : Leaves vm vm' (f :: args) world) :
    Leaves vm (vm'.opCall machine args.length) [(world.call machine f args).1]
      (world.call machine f args).2 := by
  have hsp : vm'.sp - 1 - args.length = vm.sp := by
    rw [h.sp, length_cons]
    push_cast
    ring
  have hcallee : vm'.stack vm.sp = f := by
    have hcell := h.cells 0 (by simp)
    simpa using hcell
  have hparameters : vm'.parameters args.length = if args = [] then [0] else args := by
    unfold parameters
    by_cases hnil : args = []
    · rw [if_pos hnil, hnil, length_nil, if_pos rfl]
    · rw [if_neg hnil, if_neg fun hzero => hnil (length_eq_zero_iff.mp hzero)]
      apply ext_getElem
      · simp
      · intro j hj hj'
        have hcell := h.cells (j + 1) (by simpa using hj')
        have hindex : vm'.sp - args.length + j = vm.sp + ((j + 1 : ℕ) : ℤ) := by
          rw [h.sp, length_cons]
          push_cast
          ring
        rw [getElem_map, getElem_range, hindex, hcell, getElem_cons_succ]
  apply leaves_cell h.below
  · simp only [opCall]
    rw [h.sp, length_cons]
    push_cast
    ring
  · simp only [opCall, setCell, hsp, hcallee, hparameters, h.memory, World.call]
  · simp only [opCall, hsp, hcallee, hparameters, h.memory, h.calls, World.call]

/-! ## One node -/

theorem leadType_cases (hexpr : tree.CallExpr vars) :
    tree.leadType vars = FINSH_DATA_TYPE_DWORD ∨ tree.leadType vars = FINSH_DATA_TYPE_VOID := by
  induction tree with
  | nil => exact .inr rfl
  | node info child sibling ih _ =>
    obtain ⟨hinfo, hchild, -⟩ := hexpr
    rw [Tree.leadType]
    by_cases hleaf : child = .nil
    · rw [if_pos hleaf]
      subst hleaf
      unfold InExpr at hinfo
      unfold leafDataType
      cases htype : info.nodeType with
      | id =>
        rw [htype] at hinfo
        obtain ⟨-, -, symbol, hsymbol, hoperand⟩ := hinfo
        rw [hsymbol, bind_some]
        unfold Symbol.IsOperand at hoperand
        cases hsymbolType : symbol.type vars with
        | none =>
          rw [hsymbolType] at hoperand
          exact .inr hoperand
        | some type =>
          rw [hsymbolType] at hoperand
          simp only [hoperand]
          exact .inl trivial
      | valueInt | valueLong | valueString | valueNull => exact .inl rfl
      | binary | bitwise | func =>
        rw [htype] at hinfo
        cases hinfo
      | assign =>
        rw [htype] at hinfo
        cases hinfo.1
      | valueChar | preinc | predec | inc | dec | null | getvalue | getaddr | cast =>
        rw [htype] at hinfo
        cases hinfo
    · rw [if_neg hleaf]
      exact ih hchild

theorem dataWidth_cases (hexpr : tree.CallExpr vars) :
    dataWidth (tree.leadType vars) = some .dword ∨ dataWidth (tree.leadType vars) = none := by
  obtain hlead | hlead := leadType_cases hexpr <;> rw [hlead]
  · exact .inl rfl
  · exact .inr rfl

theorem not_leaves_of_sp (hsp : vm'.sp ≠ vm.sp + 1) : ¬Leaves vm vm' [v] world :=
  fun h => hsp (by simpa using h.sp)

theorem leaves_load_iff {type : FinshType} {addr : BitVec 32}
    (hdata : type.dataType = some FINSH_DATA_TYPE_DWORD) (h : Leaves vm vm' [] world) :
    Leaves vm (execAll machine ((compileLoad type isAddr addr).filterMap Emit.instr) vm')
        [if isAddr then addr else loadField world.1 .dword addr] world ↔ type.loadWidth ≠ none := by
  have hcases : type.loadWidth = some .dword ∨ type.loadWidth = none := by
    cases type <;> first
      | exact .inl rfl
      | exact .inr rfl
      | cases hdata
  obtain hsome | hnone := hcases
  · rw [hsome, compileLoad, hsome]
    refine iff_of_true ?_ (by simp)
    cases isAddr with
    | true => exact h.push
    | false =>
      rw [← h.memory]
      exact h.push
  · rw [hnone, compileLoad, hnone]
    refine iff_of_false (not_leaves_of_sp ?_) (by simp)
    have hsp := h.sp
    change vm'.sp ≠ vm.sp + 1
    simp only [length_nil, Nat.cast_zero] at hsp
    omega

theorem own_id_iff (hid : info.nodeType = .id) (hinfo : info.InExpr vars child)
    (h : Leaves vm vm' [] world) :
    Leaves vm (execAll machine (ownCode env vars isAddr info child) vm')
        [(info.evaluate env machine isAddr [] world).1]
        (info.evaluate env machine isAddr [] world).2 ↔ info.Applied vars child := by
  unfold InExpr at hinfo
  rw [hid] at hinfo
  obtain ⟨rfl, haddress, symbol, hsymbol, hoperand⟩ := hinfo
  have hvalue : info.evaluate env machine isAddr [] world =
      (env.symbolValue isAddr world.1 symbol, world) := by
    simp [evaluate, hid, hsymbol]
  have happlied : info.Applied vars .nil ↔
      ∀ type, symbol.type vars = some type → type.loadWidth ≠ none := by
    rw [Applied, hid, hsymbol]
    rfl
  rw [hvalue, happlied]
  have hchecked : info.isSyscall = false → info.checkedAddress isAddr = isAddr := by
    intro hvar
    simp [checkedAddress, hvar, haddress]
  have hcode : ownCode env vars isAddr info .nil =
      (compileId env vars { info with
        address := info.checkedAddress isAddr
        dataType := Tree.leadType vars (.node info .nil .nil) }).filterMap Emit.instr := by
    simp only [ownCode, nodeCode, compileNode, hid]
  rw [hcode]
  cases symbol with
  | syscall f =>
    refine iff_of_true ?_ fun type htype => by cases htype
    simp only [compileId, hsymbol]
    exact h.push
  | var i | sysvar s =>
    have hvar := hchecked (by simp [isSyscall, hsymbol])
    simp only [compileId, hsymbol, hvar]
    exact (leaves_load_iff hoperand h).trans
      ⟨fun hne type htype => some.inj htype ▸ hne, fun hall => hall _ rfl⟩

theorem own_value (hcode : ownCode env vars isAddr info child = [⟨.ld .dword, info.value⟩])
    (h : Leaves vm vm' [] world) :
    Leaves vm (execAll machine (ownCode env vars isAddr info child) vm') [info.value] world := by
  rw [hcode]
  exact h.push

theorem ownCode_compileWidth (op : Width → Opcode) (hchild : child ≠ .nil)
    (hnode : ∀ dataType address tree, compileNode env vars
      { info with dataType := dataType, address := address } tree =
        compileWidth dataType fun w => [emit (op w)]) :
    ownCode env vars isAddr info child =
      (compileWidth (child.leadType vars) fun w => [emit (op w)]).filterMap Emit.instr := by
  rw [ownCode, nodeCode, hnode, Tree.leadType, if_neg hchild]

theorem own_binary_iff {op : BinOp} (htype : info.nodeType = .binary op) (hchild : child ≠ .nil)
    (hexpr : child.CallExpr vars) (h : Leaves vm vm' [x, y] world) :
    Leaves vm (execAll machine (ownCode env vars isAddr info child) vm') [op.apply x y] world ↔
      info.Applied vars child := by
  rw [ownCode_compileWidth (.binary op) hchild (by simp [compileNode, htype]),
    Applied, htype]
  obtain hwidth | hwidth := dataWidth_cases hexpr
  · rw [compileWidth, hwidth]
    exact iff_of_true (h.binary op) (by simp)
  · rw [compileWidth, hwidth]
    refine iff_of_false (not_leaves_of_sp ?_) (by simp)
    change vm'.sp ≠ vm.sp + 1
    have hsp := h.sp
    simp only [length_cons, length_nil] at hsp
    omega

theorem not_ne_self (x : BitVec 32) : ~~~x ≠ x := by
  intro heq
  have hbit := congrArg (fun v => v.getLsbD 0) heq
  simp at hbit

theorem own_bitwise_iff (htype : info.nodeType = .bitwise) (hchild : child ≠ .nil)
    (hexpr : child.CallExpr vars) (h : Leaves vm vm' [x] world) :
    Leaves vm (execAll machine (ownCode env vars isAddr info child) vm') [~~~x] world ↔
      info.Applied vars child := by
  rw [ownCode_compileWidth .bitwise hchild (by simp [compileNode, htype]), Applied, htype]
  obtain hwidth | hwidth := dataWidth_cases hexpr
  · rw [compileWidth, hwidth]
    have hstep : Leaves vm ((⟨.bitwise .dword, 0⟩ : Instr).execute machine vm') [~~~x] world :=
      h.bitwise
    exact iff_of_true hstep (by simp)
  · rw [compileWidth, hwidth]
    refine iff_of_false (fun hwrong => ?_) (by simp)
    exact not_ne_self x (hwrong.top.2.symm.trans h.top.2)

theorem own_func {first : NodeInfo} {grandchild params : Tree} {args : List (BitVec 32)}
    (htype : info.nodeType = .func) (hsize : params.length ≤ FINSH_NODE_MAX)
    (hlength : args.length = params.length) (h : Leaves vm vm' (f :: args) world) : Leaves vm
      (execAll machine (ownCode env vars isAddr info (.node first grandchild params)) vm')
      [(world.call machine f args).1] (world.call machine f args).2 := by
  have hparams : (BitVec.ofNat 32 params.length).toNat = args.length := by
    simp only [FINSH_NODE_MAX] at hsize
    rw [BitVec.toNat_ofNat, hlength]
    exact Nat.mod_eq_of_lt (by omega)
  have hcode : ownCode env vars isAddr info (.node first grandchild params) =
      [⟨.syscall, BitVec.ofNat 32 params.length⟩] := by
    simp [ownCode, nodeCode, typeCheck_node, compileNode, htype, length_typeCheck, emit, Emit.instr]
  have hcall : Leaves vm (vm'.opCall machine args.length) [(world.call machine f args).1]
      (world.call machine f args).2 := h.syscall
  rw [hcode]
  rw [← hparams] at hcall
  exact hcall

theorem own_assign {first : NodeInfo} {grandchild value : Tree} (htype : info.nodeType = .assign)
    (htarget : (Tree.node first grandchild value).isVariable = true)
    (hexpr : (Tree.node first grandchild value).CallExpr vars) (h : Leaves vm vm' [x, v] world) :
    Leaves vm (execAll machine (ownCode env vars isAddr info (.node first grandchild value)) vm')
      [v] (world.1.store x.toNat 4 v.toNat, world.2) := by
  simp only [Tree.isVariable, Bool.and_eq_true, beq_iff_eq, Bool.not_eq_true'] at htarget
  obtain ⟨hid, hvar⟩ := htarget
  obtain ⟨hfirst, -, -⟩ := hexpr
  unfold InExpr at hfirst
  rw [hid] at hfirst
  obtain ⟨rfl, -, symbol, hsymbol, hoperand⟩ := hfirst
  have hlead : Tree.leadType vars (.node first .nil value) = FINSH_DATA_TYPE_DWORD := by
    cases symbol with
    | syscall f => simp [isSyscall, hsymbol] at hvar
    | var i | sysvar s =>
      have hdata := hoperand
      simp only [Symbol.IsOperand, Symbol.type] at hdata
      simp [Tree.leadType, leafDataType, hid, hsymbol, Symbol.type, hdata]
  have hcode : ownCode env vars isAddr info (.node first .nil value) =
      [⟨.st .dword, 0⟩, ⟨.ldValueStack .dword, 0⟩] := by
    simp [ownCode, nodeCode, typeCheck_node, compileNode, htype, hid, hlead, compileStore, dataWidth,
      FINSH_DATA_TYPE_DWORD, emit, Emit.instr]
  rw [hcode]
  exact h.store

/-- A node computes its value exactly when the types it loads or applies have a width. -/
theorem own_iff (hinfo : info.InExpr vars child) (hexpr : child.CallExpr vars)
    (hsize : child.length ≤ FINSH_NODE_MAX) (hlength : values.length = child.length)
    (h : Leaves vm vm' values world) :
    Leaves vm (execAll machine (ownCode env vars isAddr info child) vm')
        [(info.evaluate env machine isAddr values world).1]
        (info.evaluate env machine isAddr values world).2 ↔ info.Applied vars child := by
  have hinfo' := hinfo
  unfold InExpr at hinfo'
  cases htype : info.nodeType with
  | id =>
    rw [htype] at hinfo'
    obtain rfl := hinfo'.1
    obtain rfl := length_eq_zero_iff.mp hlength
    exact own_id_iff htype hinfo h
  | valueInt | valueLong | valueString | valueNull =>
    simp only [htype] at hinfo'
    obtain rfl := hinfo'
    obtain rfl := length_eq_zero_iff.mp hlength
    have hcode : ownCode env vars isAddr info .nil = [⟨.ld .dword, info.value⟩] := by
      simp [ownCode, nodeCode, compileNode, htype, emit, Emit.instr]
    have hevaluate : info.evaluate env machine isAddr [] world = (info.value, world) := by
      simp [evaluate, htype]
    rw [hevaluate]
    exact iff_of_true (own_value hcode h) (by simp [Applied, htype])
  | binary op =>
    simp only [htype] at hinfo'
    have hchild : child ≠ .nil := by
      rintro rfl
      cases hinfo'
    obtain ⟨x, y, rfl⟩ := length_eq_two.mp (hlength.trans hinfo')
    have hevaluate : info.evaluate env machine isAddr [x, y] world = (op.apply x y, world) := by
      simp [evaluate, htype]
    rw [hevaluate]
    exact own_binary_iff htype hchild hexpr h
  | bitwise =>
    simp only [htype] at hinfo'
    have hchild : child ≠ .nil := by
      rintro rfl
      cases hinfo'
    obtain ⟨x, rfl⟩ := length_eq_one_iff.mp (hlength.trans hinfo')
    have hevaluate : info.evaluate env machine isAddr [x] world = (~~~x, world) := by
      simp [evaluate, htype]
    rw [hevaluate]
    exact own_bitwise_iff htype hchild hexpr h
  | func =>
    simp only [htype] at hinfo'
    cases child with
    | nil => cases hinfo'
    | node first grandchild params =>
      cases values with
      | nil => cases hlength
      | cons f args =>
        have hargs : args.length = params.length := Nat.succ.inj hlength
        have hevaluate : info.evaluate env machine isAddr (f :: args) world =
            world.call machine f args := by
          simp [evaluate, htype]
        rw [hevaluate]
        exact iff_of_true (own_func htype ((Nat.le_succ _).trans hsize) hargs h)
          (by simp [Applied, htype])
  | assign =>
    simp only [htype] at hinfo'
    obtain ⟨htwo, htarget⟩ := hinfo'
    cases child with
    | nil => cases htwo
    | node first grandchild value =>
      obtain ⟨x, v, rfl⟩ := length_eq_two.mp (hlength.trans htwo)
      have hevaluate : info.evaluate env machine isAddr [x, v] world =
          (v, world.1.store x.toNat 4 v.toNat, world.2) := by
        simp [evaluate, htype]
      rw [hevaluate]
      exact iff_of_true (own_assign htype htarget hexpr h) (by simp [Applied, htype])
  | valueChar | preinc | predec | inc | dec | null | getvalue | getaddr | cast =>
    simp only [htype] at hinfo'

/-! ## All nodes -/

theorem node_leaves_iff (hinfo : info.InExpr vars child) (hexpr : child.CallExpr vars)
    (hsize : child.length ≤ FINSH_NODE_MAX)
    (hchild : EachRight env machine vars (childAddress info.nodeType isAddr) child vm) :
    Leaves vm (execAll machine (checkedCode env vars isAddr (.node info child .nil)) vm)
        ((Tree.node info child .nil).evaluate env machine isAddr (vm.memory, vm.calls)).1
        ((Tree.node info child .nil).evaluate env machine isAddr (vm.memory, vm.calls)).2 ↔
      info.Applied vars child := by
  rw [checkedCode_single, execAll_append]
  exact own_iff hinfo hexpr hsize (length_evaluate _ _ _) hchild.leaves

/-- By induction on the tree: every node is right exactly when every node is applied. -/
theorem eachRight_iff (hexpr : tree.CallExpr vars) (hsize : tree.size ≤ FINSH_NODE_MAX) :
    EachRight env machine vars isAddr tree vm ↔ tree.Applied vars := by
  induction tree generalizing isAddr vm with
  | nil => exact Iff.rfl
  | node info child sibling ihchild ihsibling =>
    obtain ⟨hinfo, hchildExpr, hsiblingExpr⟩ := hexpr
    rw [Tree.size] at hsize
    have hlength : child.length ≤ FINSH_NODE_MAX := (length_le_size child).trans (by omega)
    have hchild := fun isAddr vm => @ihchild isAddr vm hchildExpr (by omega)
    have hsibling := fun isAddr vm => @ihsibling isAddr vm hsiblingExpr (by omega)
    rw [EachRight, Tree.Applied, hchild, hsibling]
    constructor
    · rintro ⟨happlied, hleaves, hrest⟩
      have hright := (hchild (childAddress info.nodeType isAddr) vm).mpr happlied
      exact ⟨(node_leaves_iff hinfo hchildExpr hlength hright).mp hleaves, happlied, hrest⟩
    · rintro ⟨hown, happlied, hrest⟩
      have hright := (hchild (childAddress info.nodeType isAddr) vm).mpr happlied
      exact ⟨happlied, (node_leaves_iff hinfo hchildExpr hlength hright).mpr hown, hrest⟩

end Runs

/-! ## Lines -/

section Lines

variable {env : FinshEnv} {machine : Machine} {shell : FinshShell} {vars : FinshVars} {n : ℕ}
  {line : List Char} {root : Tree} {s : FinshState} {text : List UInt8}

/-- The run of the text of an expression: every node leaves its value, and the machine ends with
that of the expression in the bottom cell, the memory and the calls of the expression. -/
def CallsRight (env : FinshEnv) (machine : Machine) (vars : FinshVars) (root : Tree)
    (text : List UInt8) (start : FinshVm) : Prop :=
  EachRight env machine vars false root start ∧
    ∃ vm, finshVmRun machine text start.stack start.memory start.calls = some vm ∧
      [vm.stack 0] = (root.evaluate env machine false (start.memory, start.calls)).1 ∧
      (vm.memory, vm.calls) = (root.evaluate env machine false (start.memory, start.calls)).2

theorem compilerCode_single {info : NodeInfo} {child : Tree} :
    compilerCode env vars (.node info child .nil) =
      checkedCode env vars false (.node info child .nil) := by
  rw [compilerCode, compilerEmits, checkedCode, treeCode, typeCheck_node]
  simp [finshTypeCheck, compileStatements]

/-- A line with system calls among its operands is executed right if and only if no operator
has a call in its leftmost place, and no variable is a `void*`. -/
theorem callsRight_iff (hparse : finshParserRun env n line (shell.start line) = some (root, s))
    (herrno : s.errno = .ok)
    (hcompile : finshCompilerRun env s.vars root s.errno = some (text, .ok))
    (hsingle : root.length = 1) (hexpr : root.CallExpr s.vars) :
    CallsRight env machine s.vars root text
      (vmStart (clearBottom shell.stack) s.memory shell.calls) ↔ root.Applied s.vars := by
  obtain ⟨-, hsize⟩ := wellFormed_of_parse hparse herrno
  obtain ⟨-, hlength, -⟩ := text_of_compile hcompile
  have heach : EachRight env machine s.vars false root
      (vmStart (clearBottom shell.stack) s.memory shell.calls) ↔ root.Applied s.vars :=
    eachRight_iff hexpr hsize
  rw [CallsRight, heach, and_iff_left_iff_imp]
  intro happlied
  have hleaves := (heach.mpr happlied).leaves
  obtain ⟨pc, hrun⟩ := @vmLoop_of_accepted env machine shell n line root s text
    (clearBottom shell.stack) s.memory shell.calls hparse herrno hcompile FINSH_TEXT_MAX
  rw [take_of_length_le ((length_le_encodeAll _).trans hlength)] at hrun
  refine ⟨_, hrun, ?_⟩
  cases root with
  | nil => cases hsingle
  | node info child sibling =>
    obtain rfl : sibling = .nil := by
      cases sibling with
      | nil => rfl
      | node _ _ _ => cases hsingle
    rw [compilerCode_single]
    refine ⟨?_, hleaves.inWorld⟩
    have hvalues : ((Tree.node info child .nil).evaluate env machine false
        (s.memory, shell.calls)).1.length = 1 := length_evaluate _ _ _
    obtain ⟨value, hvalue⟩ := length_eq_one_iff.mp hvalues
    have htop := hleaves
    simp only [vmStart] at htop ⊢
    rw [hvalue] at htop ⊢
    exact congrArg (fun v => [v]) htop.top.2

theorem callsRight_of_small_line :
    ∃ root s text, finshParserRun smallEnv 12 "a = 1 - hello(a, 2);".toList
        (smallShell.start "a = 1 - hello(a, 2);".toList) = some (root, s) ∧ s.errno = .ok ∧
      finshCompilerRun smallEnv s.vars root s.errno = some (text, .ok) ∧
      root.length = 1 ∧ root.CallExpr s.vars ∧ (CallsRight smallEnv smallMachine s.vars root text
        (vmStart (clearBottom smallShell.stack) s.memory smallShell.calls) ↔
          root.Applied s.vars) := by
  have hline : (finshParserRun smallEnv 12 "a = 1 - hello(a, 2);".toList
      (smallShell.start "a = 1 - hello(a, 2);".toList)).map
      (fun r => (r.1, r.2.errno, (r.2.vars 0).type,
        (finshCompilerRun smallEnv r.2.vars r.1 r.2.errno).map Prod.snd)) =
      some (differenceTree, .ok, .int, some .ok) := by
    decide +kernel
  obtain ⟨⟨root, s⟩, hparse, hresult⟩ := map_eq_some_iff.mp hline
  simp only [Prod.mk.injEq] at hresult
  obtain ⟨rfl, herrno, hint, hcompile⟩ := hresult
  obtain ⟨⟨text, errno⟩, hcompile, rfl⟩ := map_eq_some_iff.mp hcompile
  have hexpr : ∀ sibling : Tree, Tree.CallExpr s.vars sibling →
      Tree.CallExpr s.vars (.node { nodeType := .id, id := some (.var 0) } .nil sibling) :=
    fun sibling hsibling => ⟨⟨rfl, rfl, _, rfl, by
      rw [Symbol.IsOperand, Symbol.type, hint]
      rfl⟩, trivial, hsibling⟩
  have hcall : Tree.CallExpr s.vars differenceTree := by
    refine ⟨⟨rfl, rfl⟩, hexpr _ ⟨rfl, ⟨rfl, trivial, rfl, ?_, trivial⟩, trivial⟩, trivial⟩
    exact ⟨⟨rfl, rfl, _, rfl, rfl⟩, trivial, hexpr _ ⟨rfl, trivial, trivial⟩⟩
  exact ⟨_, s, text, hparse, herrno, hcompile, rfl, hcall,
    callsRight_iff hparse herrno hcompile rfl hcall⟩

/-- In `hello(1) + 2;` the call gives its value and the sum is left out. -/
theorem sum_not_applied :
    (¬∀ (env : FinshEnv) (machine : Machine) (shell : FinshShell) (n : ℕ) (line : List Char)
      (root : Tree) (s : FinshState) (text : List UInt8),
        finshParserRun env n line (shell.start line) = some (root, s) → s.errno = .ok →
        finshCompilerRun env s.vars root s.errno = some (text, .ok) → root.length = 1 →
        root.CallExpr s.vars → CallsRight env machine s.vars root text
          (vmStart (clearBottom shell.stack) s.memory shell.calls)) ∧
    (finshRunLine smallEnv smallMachine 12 "hello(1) + 2;".toList smallShell).map Prod.fst =
      some (some 1) := by
  have hdisplay : (finshRunLine smallEnv smallMachine 12 "hello(1) + 2;".toList smallShell).map
      Prod.fst = some (some 1) := by
    decide +kernel
  refine ⟨fun hall => ?_, hdisplay⟩
  have hline : (finshParserRun smallEnv 12 "hello(1) + 2;".toList
      (smallShell.start "hello(1) + 2;".toList)).map
      (fun r => (r.1, r.2.errno, (finshCompilerRun smallEnv r.2.vars r.1 r.2.errno).map Prod.snd)) =
      some (sumTree, .ok, some .ok) := by
    decide +kernel
  obtain ⟨⟨root, s⟩, hparse, hresult⟩ := map_eq_some_iff.mp hline
  simp only [Prod.mk.injEq] at hresult
  obtain ⟨rfl, herrno, hcompile⟩ := hresult
  obtain ⟨⟨text, errno⟩, hcompile, rfl⟩ := map_eq_some_iff.mp hcompile
  have hexpr : Tree.CallExpr s.vars sumTree := by
    refine ⟨rfl, ⟨rfl, ?_, rfl, trivial, trivial⟩, trivial⟩
    exact ⟨⟨rfl, rfl, _, rfl, rfl⟩, trivial, rfl, trivial, trivial⟩
  obtain ⟨-, vm, hrun, hvalue, -⟩ :=
    hall smallEnv smallMachine smallShell 12 _ _ s text hparse herrno hcompile rfl hexpr
  rw [finshRunLine_of_accepted smallShell hparse herrno hcompile hrun] at hdisplay
  have hbottom : vm.stack 0 = 1 := some.inj (some.inj hdisplay)
  rw [hbottom] at hvalue
  have hthree : Tree.evaluate smallEnv smallMachine false sumTree (s.memory, []) =
      ([3], s.memory, [(0x08001000, [1])]) := by
    simp [sumTree, Tree.evaluate, evaluate, helloName, World.call, FinshEnv.symbolValue,
      smallMachine, BinOp.apply]
  have hvalues : [(1 : BitVec 32)] = [3] := hvalue.trans (congrArg Prod.fst hthree)
  cases hvalues

end Lines

end RtThread.Finsh
