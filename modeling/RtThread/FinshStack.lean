import RtThread.FinshShape
import RtThread.FinshSteps
import RtThread.FinshCode

/-!
# The stack discipline of compiled lines

Every node should turn the values of its children into one value.  The code
generator does this unless a switch over a type has no case: a variable of type
`void` or `void*` is not loaded, an operator whose first operand has no width
is not applied, and an assignment to anything but a name or `*p` stores nothing.
-/

namespace RtThread.Finsh

open List Option StateProgram Emit Finsh.Tree

/-! ## The height of the stack -/

def Instr.need (instr : Instr) : ℕ :=
  match instr.op with
  | .noop | .ld _ | .ldValue _ => 0
  | .bitwise _ | .pop | .ldValueStack _ => 1
  | .binary _ _ | .st _ => 2
  | .syscall => instr.operand.toNat + 1

def Instr.net (instr : Instr) : ℤ :=
  match instr.op with
  | .noop | .bitwise _ | .ldValueStack _ => 0
  | .ld _ | .ldValue _ => 1
  | .binary _ _ | .st _ | .pop => -1
  | .syscall => -instr.operand.toNat

def height (code : List Instr) : ℤ := (code.map Instr.net).sum

def treeCode (env : FinshEnv) (vars : FinshVars) (tree : Tree) : List Instr :=
  (finshCompile env vars tree).filterMap Emit.instr

/-- The `len` instructions from `k` on leave one value, and find their operands among the
values pushed since. -/
structure LeavesOne (code : List Instr) (sp : ℕ → ℤ) (k len : ℕ) : Prop where
  one : sp (k + len) = sp k + 1
  fed : ∀ j < len, ∀ instr, code[k + j]? = some instr → sp k + instr.need ≤ sp (k + j)

def EachLeavesOne (env : FinshEnv) (vars : FinshVars) (code : List Instr) (sp : ℕ → ℤ) :
    ℕ → Tree → Prop
  | _, .nil => True
  | k, .node info child sibling =>
    EachLeavesOne env vars code sp k child ∧
      LeavesOne code sp k (treeCode env vars (.node info child .nil)).length ∧
      EachLeavesOne env vars code sp
        (k + (treeCode env vars (.node info child .nil)).length) sibling

/-- The code of the statements from instruction `k` on: each starts on the empty stack, keeps
the discipline and leaves one value for the `POP`. -/
def StatementsLeaveOne (env : FinshEnv) (vars : FinshVars) (code : List Instr) (sp : ℕ → ℤ) :
    ℕ → Tree → Prop
  | _, .nil => True
  | k, .node info child sibling =>
    sp k = 0 ∧ EachLeavesOne env vars code sp k (.node info child .nil) ∧
      sp (k + (treeCode env vars (.node info child .nil)).length) = 1 ∧
      StatementsLeaveOne env vars code sp (k + (treeCode env vars (.node info child .nil)).length +
          if sibling = .nil then 0 else 1) sibling

/-- The stack pointer keeps its bounds, and every statement leaves one value. -/
def StackDiscipline (env : FinshEnv) (machine : Machine) (vars : FinshVars) (root : Tree)
    (text : List UInt8) (start : FinshVm) : Prop :=
  ∃ sp : ℕ → ℤ, (∀ k, ∃ vm, vmLoop machine text k start = some vm ∧ vm.sp = sp k) ∧
      (∀ k, 0 ≤ sp k ∧ sp k ≤ FINSH_STACK_MAX) ∧
      StatementsLeaveOne env vars (compilerCode env vars root) sp 0
        (finshTypeCheck vars false root).1

/-! ## The condition -/

def Tree.leadType (vars : FinshVars) : Tree → ℕ
  | .nil => 0
  | .node info child _ =>
    if child = .nil then (leafDataType vars info).1 else child.leadType vars

def Tree.isTarget : Tree → Bool
  | .nil => false
  | .node info _ _ => info.nodeType == .id || info.nodeType == .getvalue

def NodeInfo.Covered (vars : FinshVars) (info : NodeInfo) (child : Tree) : Prop :=
  match info.nodeType with
  | .id => ∀ type, info.id.bind (Symbol.type vars) = some type → type.loadWidth ≠ none
  | .binary _ => dataWidth (child.leadType vars) ≠ none
  | .assign => child.isTarget = true
  | _ => True

def Tree.Covered (vars : FinshVars) : Tree → Prop
  | .nil => True
  | .node info child sibling =>
    info.Covered vars child ∧ child.Covered vars ∧ sibling.Covered vars

/-! ## Heights of code -/

section Heights

variable {code pre seg post : List Instr} {instr : Instr} {machine : Machine} {vm : FinshVm}

theorem height_append (code code' : List Instr) :
    height (code ++ code') = height code + height code' := by
  simp [height]

theorem execute_sp : (instr.execute machine vm).sp = vm.sp + instr.net := by
  obtain ⟨op, operand⟩ := instr
  cases op with
  | noop | bitwise | ldValueStack => exact (add_zero _).symm
  | _ => rfl

theorem execAll_sp (code : List Instr) : (execAll machine code vm).sp = vm.sp + height code := by
  induction code generalizing vm with
  | nil => exact (add_zero _).symm
  | cons instr code ih =>
    change (execAll machine code (instr.execute machine vm)).sp = _
    rw [ih, execute_sp, height, height, map_cons, sum_cons, add_assoc]

theorem two_mul_net_le (instr : Instr) : 2 * instr.net ≤ instr.encode.length := by
  rw [instr.length_encode]
  obtain ⟨op, operand⟩ := instr
  cases op with
  | ld w => cases w <;> simp [Instr.net, Opcode.operandBytes, Width.bytes]
  | noop | binary | bitwise | ldValue | st | pop | ldValueStack =>
    simp [Instr.net, Opcode.operandBytes]
  | syscall =>
    simp only [Instr.net, Opcode.operandBytes]
    omega

theorem two_mul_height_le (code : List Instr) : 2 * height code ≤ (encodeAll code).length := by
  induction code with
  | nil => exact le_rfl
  | cons instr code ih =>
    have hhead := two_mul_net_le instr
    have hheight : height (instr :: code) = instr.net + height code := rfl
    have hlength : (encodeAll (instr :: code)).length =
        instr.encode.length + (encodeAll code).length := length_append
    rw [hheight, hlength]
    push_cast
    linarith

theorem height_take_segment (pre seg post : List Instr) {j : ℕ} (hj : j ≤ seg.length) :
    height ((pre ++ seg ++ post).take (pre.length + j)) = height pre + height (seg.take j) := by
  rw [append_assoc, take_length_add_append, height_append,
    take_append_of_le_length hj]

theorem getElem?_segment (pre seg post : List Instr) {j : ℕ} (hj : j < seg.length) :
    (pre ++ seg ++ post)[pre.length + j]? = seg[j]? := by
  rw [append_assoc, getElem?_append_right (Nat.le_add_right _ _),
    Nat.add_sub_cancel_left, getElem?_append_left hj]

end Heights

/-- The code turns `c` values into one. -/
structure Transforms (c : ℕ) (seg : List Instr) : Prop where
  one : c + height seg = 1
  fed : ∀ j < seg.length, ∀ instr, seg[j]? = some instr → (instr.need : ℤ) ≤ c + height (seg.take j)

/-! ## Type check -/

section Types

variable {vars : FinshVars} {info : NodeInfo} {child sibling tree : Tree} {isAddr : Bool}

theorem length_typeCheck (tree : Tree) (isAddr : Bool) :
    (finshTypeCheck vars isAddr tree).1.length = tree.length := by
  induction tree generalizing isAddr with
  | nil => rfl
  | node info child sibling _ ih => simp only [finshTypeCheck, Tree.length, ih]

theorem typeCheck_eq_nil : (finshTypeCheck vars isAddr tree).1 = .nil ↔ tree = .nil := by
  cases tree <;> simp [finshTypeCheck]

def NodeInfo.checkedAddress (info : NodeInfo) (isAddr : Bool) : Bool :=
  if info.isSyscall then info.address else info.address || isAddr

theorem typeCheck_node : (finshTypeCheck vars isAddr (.node info child sibling)).1 =
      .node { info with
          address := info.checkedAddress isAddr
          dataType := Tree.leadType vars (.node info child sibling) }
        (finshTypeCheck vars (childAddress info.nodeType isAddr) child).1
        (finshTypeCheck vars false sibling).1 := by
  induction child generalizing info sibling isAddr with
  | nil => rfl
  | node first grandchild next ih _ =>
    have hchild := @ih first next (childAddress info.nodeType isAddr)
    rw [finshTypeCheck]
    simp only [hchild]
    rfl

/-! ## One node -/

variable {env : FinshEnv}

def nodeCode (env : FinshEnv) (vars : FinshVars) (info : NodeInfo) (child : Tree) : List Instr :=
  (compileNode env vars info child).filterMap Emit.instr

theorem treeCode_node (info : NodeInfo) (child sibling : Tree) :
    treeCode env vars (.node info child sibling) =
      treeCode env vars child ++ nodeCode env vars info child ++ treeCode env vars sibling := by
  simp [treeCode, finshCompile, nodeCode]

theorem treeCode_nil : treeCode env vars .nil = [] := rfl

theorem Transforms.nil_iff {c : ℕ} : Transforms c [] ↔ c = 1 := by
  constructor
  · intro h
    have hone := h.one
    simp only [height, map_nil, sum_nil] at hone
    omega
  · rintro rfl
    exact ⟨rfl, fun j hj => absurd hj (Nat.not_lt_zero j)⟩

theorem Transforms.cons_iff (c' : ℕ) {c : ℕ} {instr : Instr} {seg : List Instr}
    (hneed : instr.need ≤ c) (hnet : (c' : ℤ) = c + instr.net) :
    Transforms c (instr :: seg) ↔ Transforms c' seg := by
  have hheight : ∀ code, (c : ℤ) + height (instr :: code) = c' + height code := by
    intro code
    rw [hnet, height, map_cons, sum_cons, ← height, add_assoc]
  constructor
  · intro h
    refine ⟨(hheight seg).symm.trans h.one, fun j hj next hnext => ?_⟩
    have hfed := h.fed (j + 1) (Nat.succ_lt_succ hj) next hnext
    rwa [take_succ_cons, hheight] at hfed
  · intro h
    refine ⟨(hheight seg).trans h.one, fun j hj next hnext => ?_⟩
    cases j with
    | zero =>
      obtain rfl := some.inj hnext
      simpa [height] using hneed
    | succ j =>
      rw [take_succ_cons, hheight]
      exact h.fed j (Nat.lt_of_succ_lt_succ hj) next hnext

theorem transforms_singleton {c : ℕ} {instr : Instr}
    (hneed : instr.need ≤ c) (hnet : (c : ℤ) + instr.net = 1) : Transforms c [instr] :=
  (Transforms.cons_iff 1 hneed hnet.symm).mpr (Transforms.nil_iff.mpr rfl)

theorem transforms_compileLoad_iff {type : FinshType} {address : Bool} {addr : BitVec 32} :
    Transforms 0 ((compileLoad type address addr).filterMap Emit.instr) ↔
      type.loadWidth ≠ none := by
  unfold compileLoad
  cases type.loadWidth with
  | none => simp [Transforms.nil_iff]
  | some w =>
    have hone : Transforms 0 [⟨if address then .ld .dword else .ldValue w, addr⟩] := by
      cases address <;> exact transforms_singleton (Nat.zero_le _) rfl
    cases address <;> simpa [emit, instr] using hone

theorem transforms_compileWidth_iff {c dataType : ℕ} {op : Width → Opcode}
    (hop : ∀ w, Transforms c [⟨op w, 0⟩]) :
    Transforms c ((compileWidth dataType fun w => [emit (op w)]).filterMap Emit.instr) ↔
      dataWidth dataType ≠ none ∨ c = 1 := by
  unfold compileWidth
  cases dataWidth dataType with
  | none => simp [Transforms.nil_iff]
  | some w => simpa [emit, instr] using hop w

theorem transforms_compileStore {dataType : ℕ}
    (herror : (compileStore dataType).filterMap Emit.errorType = []) :
    Transforms 2 ((compileStore dataType).filterMap Emit.instr) := by
  unfold compileStore at herror ⊢
  cases hwidth : dataWidth dataType with
  | none => simp [hwidth, errorType] at herror
  | some w =>
    have hload : Transforms 1 [⟨.ldValueStack w, 0⟩] := transforms_singleton le_rfl rfl
    have hstore : Transforms 2 [⟨.st w, 0⟩, ⟨.ldValueStack w, 0⟩] :=
      (Transforms.cons_iff 1 (Nat.le_refl 2) rfl).mpr hload
    exact hstore

theorem transforms_compileIncrement {info : NodeInfo} {child : Tree}
    {code : BitVec 32 → Width → List Emit}
    (hcode : ∀ addr w, Transforms 1 ((code addr w).filterMap Emit.instr)) :
    Transforms 1 ((compileIncrement env info child code).filterMap Emit.instr) := by
  have hnone : Transforms 1 [] := Transforms.nil_iff.mpr rfl
  unfold compileIncrement
  split
  · split
    · unfold compileWidth
      split
      · exact hcode _ _
      · exact hnone
    · exact hnone
  · exact hnone

theorem transforms_compilePrefix (op : BinOp) (addr : BitVec 32) (w : Width) :
    Transforms 1 ((compilePrefix op addr w).filterMap Emit.instr) := by
  refine (Transforms.cons_iff 2 (Nat.zero_le _) rfl).mpr ?_
  refine (Transforms.cons_iff 3 (Nat.zero_le _) rfl).mpr ?_
  refine (Transforms.cons_iff 2 (Nat.le_add_left 2 _) rfl).mpr ?_
  refine (Transforms.cons_iff 1 (Nat.le_add_left 2 _) rfl).mpr ?_
  exact transforms_singleton le_rfl rfl

theorem transforms_compileSuffix (op : BinOp) (addr : BitVec 32) (w : Width) :
    Transforms 1 ((compileSuffix op addr w).filterMap Emit.instr) := by
  refine (Transforms.cons_iff 2 (Nat.zero_le _) rfl).mpr ?_
  refine (Transforms.cons_iff 3 (Nat.zero_le _) rfl).mpr ?_
  refine (Transforms.cons_iff 4 (Nat.zero_le _) rfl).mpr ?_
  refine (Transforms.cons_iff 3 (Nat.le_add_left 2 _) rfl).mpr ?_
  refine (Transforms.cons_iff 2 (Nat.le_add_left 2 _) rfl).mpr ?_
  exact transforms_singleton (by decide) rfl

theorem transforms_nodeCode_iff {address : Bool} {dataType : ℕ} (harity : info.ArityOk child.length)
    (hsize : child.length ≤ FINSH_NODE_MAX) (hlead : child ≠ .nil → dataType = child.leadType vars)
    (herror : (compileNode env vars { info with address := address, dataType := dataType }
      (finshTypeCheck vars isAddr child).1).filterMap Emit.errorType = []) :
    Transforms child.length (nodeCode env vars
      { info with address := address, dataType := dataType } (finshTypeCheck vars isAddr child).1) ↔
      info.Covered vars child := by
  have hchild : 0 < child.length → child ≠ .nil := by
    rintro hpos rfl
    exact absurd hpos (lt_irrefl 0)
  unfold NodeInfo.ArityOk at harity
  unfold nodeCode NodeInfo.Covered
  unfold compileNode at herror ⊢
  cases htype : info.nodeType with
  | id =>
    simp only [htype] at harity ⊢
    obtain ⟨hsymbol, hzero⟩ := harity
    rw [hzero]
    obtain ⟨symbol, hid⟩ := isSome_iff_exists.mp hsymbol
    simp only [compileId, hid, bind_some]
    cases symbol with
    | var i | sysvar sysvar => simp [transforms_compileLoad_iff, Symbol.type]
    | syscall f =>
      have hload : Transforms 0 [⟨.ld .dword, f.func⟩] := transforms_singleton (Nat.zero_le _) rfl
      simpa [emit, instr, Symbol.type] using hload
  | valueChar | valueInt | valueLong | valueString | valueNull =>
    simp only [htype] at harity ⊢
    rw [harity, iff_true]
    exact transforms_singleton (Nat.zero_le _) rfl
  | binary op =>
    simp only [htype] at harity ⊢
    rw [harity, transforms_compileWidth_iff (fun w => transforms_singleton (Nat.le_refl 2) rfl),
      hlead (hchild (by omega))]
    simp
  | bitwise =>
    simp only [htype] at harity ⊢
    rw [harity, transforms_compileWidth_iff (fun w => transforms_singleton (Nat.le_refl 1) rfl)]
    simp
  | func =>
    simp only [htype] at harity ⊢
    rw [iff_true]
    cases child with
    | nil => exact absurd harity (lt_irrefl 0)
    | node first grandchild params =>
      have hparams : (BitVec.ofNat 32 params.length).toNat = params.length := by
        simp only [Tree.length, FINSH_NODE_MAX] at hsize
        rw [BitVec.toNat_ofNat]
        exact Nat.mod_eq_of_lt (by omega)
      have hlength : (finshTypeCheck vars false params).1.length = params.length :=
        length_typeCheck params false
      simp only [finshTypeCheck, emit, filterMap_cons, filterMap_nil, instr, hlength]
      apply transforms_singleton
      · simp only [Instr.need, hparams, Tree.length]
        exact le_rfl
      · simp only [Instr.net, hparams, Tree.length]
        push_cast
        ring
  | assign =>
    simp only [htype] at harity herror ⊢
    rw [harity]
    cases child with
    | nil => cases harity
    | node first grandchild value =>
      simp only [typeCheck_node] at herror ⊢
      by_cases hid : first.nodeType = .id
      · rw [if_pos hid] at herror ⊢
        exact iff_of_true (transforms_compileStore herror) (by simp [isTarget, hid])
      · rw [if_neg hid] at herror ⊢
        by_cases hvalue : first.nodeType = .getvalue
        · rw [if_pos hvalue] at herror ⊢
          exact iff_of_true (transforms_compileStore herror) (by simp [isTarget, hvalue])
        · rw [if_neg hvalue] at herror ⊢
          simp [isTarget, hid, hvalue, Transforms.nil_iff]
  | preinc | predec =>
    simp only [htype] at harity ⊢
    rw [harity, iff_true]
    exact transforms_compileIncrement fun addr w => transforms_compilePrefix _ addr w
  | inc | dec =>
    simp only [htype] at harity ⊢
    rw [harity, iff_true]
    exact transforms_compileIncrement fun addr w => transforms_compileSuffix _ addr w
  | getvalue =>
    simp only [htype] at harity ⊢
    rw [harity, iff_true]
    cases address with
    | true => exact Transforms.nil_iff.mpr rfl
    | false =>
      exact (transforms_compileWidth_iff
        (fun w => transforms_singleton (Nat.le_refl 1) rfl)).mpr (.inr rfl)
  | getaddr =>
    simp only [htype] at harity ⊢
    rw [harity, iff_true]
    exact Transforms.nil_iff.mpr rfl
  | cast | null => simp only [htype] at harity

/-! ## Trees and statements -/

def spOf (code : List Instr) (k : ℕ) : ℤ := height (code.take k)

variable {code : List Instr}

theorem fed_of_each (k : ℕ) (hsibling : EachLeavesOne env vars code (spOf code) k tree) :
    ∀ j < (treeCode env vars tree).length, ∀ instr, code[k + j]? = some instr →
      spOf code k + instr.need ≤ spOf code (k + j) := by
  induction tree generalizing k with
  | nil => exact fun j hj => absurd hj (Nat.not_lt_zero j)
  | node info child sibling _ ih =>
    intro j hj instr hinstr
    obtain ⟨-, hnode, hrest⟩ := hsibling
    by_cases hown : j < (treeCode env vars (.node info child .nil)).length
    · exact hnode.fed j hown instr hinstr
    · have hlength : (treeCode env vars (.node info child sibling)).length =
          (treeCode env vars (.node info child .nil)).length +
            (treeCode env vars sibling).length := by
        simp [treeCode_node, treeCode_nil, Nat.add_assoc]
      obtain ⟨i, rfl⟩ := Nat.exists_eq_add_of_le (not_lt.mp hown)
      have hnext := ih _ hrest i (by omega) instr (by rw [← hinstr, Nat.add_assoc])
      have hone := hnode.one
      rw [Nat.add_assoc] at hnext
      omega

theorem leavesOne_iff {pre post : List Instr} {childCode own : List Instr} {c : ℕ}
    (hcode : code = pre ++ (childCode ++ own) ++ post) (hheight : height childCode = c)
    (hfed : ∀ j < childCode.length, ∀ instr, code[pre.length + j]? = some instr →
      spOf code pre.length + instr.need ≤ spOf code (pre.length + j)) :
    LeavesOne code (spOf code) pre.length (childCode ++ own).length ↔ Transforms c own := by
  have hstart : spOf code pre.length = height pre := by
    have hzero := height_take_segment pre (childCode ++ own) post (Nat.zero_le _)
    rw [← hcode, Nat.add_zero] at hzero
    rw [spOf, hzero, take_zero]
    exact add_zero _
  have hsp : ∀ j ≤ own.length, spOf code (pre.length + (childCode.length + j)) =
      height pre + c + height (own.take j) := by
    intro j hj
    have htake := height_take_segment pre (childCode ++ own) post
      (j := childCode.length + j) (by rw [length_append]; lia)
    rw [← hcode] at htake
    rw [spOf, htake, take_length_add_append, height_append, hheight, add_assoc]
  have hget : ∀ j < own.length, code[pre.length + (childCode.length + j)]? = own[j]? := by
    intro j hj
    rw [hcode, getElem?_segment _ _ _ (by rw [length_append]; lia),
      getElem?_append_right (Nat.le_add_right _ _), Nat.add_sub_cancel_left]
  constructor
  · intro h
    constructor
    · have hone := h.one
      rw [length_append, hsp _ le_rfl, hstart, take_length] at hone
      lia
    · intro j hj instr hinstr
      have hneed := h.fed (childCode.length + j) (by rw [length_append]; lia) instr
        ((hget j hj).trans hinstr)
      rw [hsp j hj.le, hstart] at hneed
      lia
  · intro h
    constructor
    · have hone := h.one
      rw [length_append, hsp _ le_rfl, hstart, take_length]
      lia
    · intro j hj instr hinstr
      by_cases hchild : j < childCode.length
      · exact hfed j hchild instr hinstr
      · obtain ⟨i, rfl⟩ := Nat.exists_eq_add_of_le (not_lt.mp hchild)
        rw [length_append] at hj
        have hneed := h.fed i (by lia) instr ((hget i (by lia)).symm.trans hinstr)
        rw [hsp i (by lia), hstart]
        lia

theorem length_le_size (tree : Tree) : tree.length ≤ tree.size := by
  induction tree with
  | nil => exact le_rfl
  | node info child sibling _ ih =>
    simp only [Tree.length, Tree.size]
    omega

theorem eachLeavesOne_node {childT siblingT : Tree} {childOk ownOk siblingOk : Prop} {c d : ℕ}
    {pre post : List Instr}
    (hchild : ∀ {pre post}, code = pre ++ treeCode env vars childT ++ post →
      (EachLeavesOne env vars code (spOf code) pre.length childT ↔ childOk) ∧
        (childOk → height (treeCode env vars childT) = c))
    (hown : Transforms c (nodeCode env vars info childT) ↔ ownOk)
    (hsibling : ∀ {pre post}, code = pre ++ treeCode env vars siblingT ++ post →
      (EachLeavesOne env vars code (spOf code) pre.length siblingT ↔ siblingOk) ∧
        (siblingOk → height (treeCode env vars siblingT) = d))
    (hcode : code = pre ++ treeCode env vars (.node info childT siblingT) ++ post) :
    (EachLeavesOne env vars code (spOf code) pre.length (.node info childT siblingT) ↔
      ownOk ∧ childOk ∧ siblingOk) ∧ (ownOk ∧ childOk ∧ siblingOk →
      height (treeCode env vars (.node info childT siblingT)) = (d + 1 : ℕ)) := by
  have hsingle : treeCode env vars (.node info childT .nil) =
      treeCode env vars childT ++ nodeCode env vars info childT := by
    rw [treeCode_node, treeCode_nil, append_nil]
  rw [treeCode_node] at hcode ⊢
  have hchildCode : code = pre ++ treeCode env vars childT ++
      (nodeCode env vars info childT ++ treeCode env vars siblingT ++ post) := by
    rw [hcode]
    simp only [append_assoc]
  have hownCode : code = pre ++ (treeCode env vars childT ++ nodeCode env vars info childT) ++
      (treeCode env vars siblingT ++ post) := by
    rw [hcode]
    simp only [append_assoc]
  have hsiblingCode : code = (pre ++ (treeCode env vars childT ++ nodeCode env vars info childT)) ++
        treeCode env vars siblingT ++ post := by
    rw [hcode]
    simp only [append_assoc]
  obtain ⟨hchildIff, hchildHeight⟩ := hchild hchildCode
  obtain ⟨hsiblingIff, hsiblingHeight⟩ := hsibling hsiblingCode
  have hnode := fun hheight hfed => leavesOne_iff (c := c) hownCode hheight hfed
  rw [length_append] at hsiblingIff
  constructor
  · unfold EachLeavesOne
    rw [hsingle, hsiblingIff]
    constructor
    · rintro ⟨heach, hleaves, hrest⟩
      have hok := hchildIff.mp heach
      exact ⟨hown.mp ((hnode (hchildHeight hok) (fed_of_each _ heach)).mp hleaves), hok, hrest⟩
    · rintro ⟨hownOk, hok, hrest⟩
      have heach := hchildIff.mpr hok
      exact ⟨heach, (hnode (hchildHeight hok) (fed_of_each _ heach)).mpr (hown.mpr hownOk), hrest⟩
  · rintro ⟨hownOk, hok, hrest⟩
    have hone := (hown.mpr hownOk).one
    rw [height_append, height_append, hchildHeight hok, hsiblingHeight hrest]
    push_cast
    linarith

/-- By induction on the tree: each node leaves one value exactly when its types have widths. -/
theorem eachLeavesOne_iff {isAddr : Bool} {pre post : List Instr}
    (hcode : code = pre ++ treeCode env vars (finshTypeCheck vars isAddr tree).1 ++ post)
    (hshape : tree.WellFormed) (hsize : tree.size ≤ FINSH_NODE_MAX)
    (herror : (finshCompile env vars (finshTypeCheck vars isAddr tree).1).filterMap
      Emit.errorType = []) :
    (EachLeavesOne env vars code (spOf code) pre.length (finshTypeCheck vars isAddr tree).1 ↔
      tree.Covered vars) ∧ (tree.Covered vars →
      height (treeCode env vars (finshTypeCheck vars isAddr tree).1) = tree.length) := by
  induction tree generalizing isAddr pre post with
  | nil => exact ⟨Iff.rfl, fun _ => rfl⟩
  | node info child sibling ihchild ihsibling =>
    obtain ⟨harity, hchildShape, hsiblingShape⟩ := hshape
    simp only [Tree.size] at hsize
    rw [typeCheck_node] at hcode herror ⊢
    simp only [finshCompile, filterMap_append, append_eq_nil_iff] at herror
    obtain ⟨⟨hchildError, hnodeError⟩, hsiblingError⟩ := herror
    have hlead : child ≠ .nil →
        leadType vars (.node info child sibling) = child.leadType vars := fun hne => if_neg hne
    have hlength : child.length ≤ FINSH_NODE_MAX := by
      have hle := length_le_size child
      omega
    have hown := transforms_nodeCode_iff harity hlength hlead hnodeError
    exact eachLeavesOne_node (fun hpre => ihchild hpre hchildShape (by omega) hchildError) hown
      (fun hpre => ihsibling hpre hsiblingShape (by omega) hsiblingError) hcode

def statementsCode (env : FinshEnv) (vars : FinshVars) (tree : Tree) : List Instr :=
  (compileStatements env vars tree).filterMap Emit.instr

def popCode (sibling : Tree) : List Instr := if sibling = .nil then [] else [⟨.pop, 0⟩]

theorem statementsCode_node (info : NodeInfo) (child sibling : Tree) :
    statementsCode env vars (.node info child sibling) =
      treeCode env vars (.node info child .nil) ++ popCode sibling ++
        statementsCode env vars sibling := by
  have hpop : (if sibling = .nil then [] else [emit .pop]).filterMap instr =
      popCode sibling := by
    unfold popCode
    split <;> rfl
  simp only [statementsCode, compileStatements, filterMap_append, hpop, treeCode]

theorem length_popCode (sibling : Tree) :
    (popCode sibling).length = if sibling = .nil then 0 else 1 := by
  unfold popCode
  split <;> rfl

theorem spOf_length (pre seg post : List Instr) (hcode : code = pre ++ seg ++ post) :
    spOf code (pre.length + seg.length) = height pre + height seg := by
  rw [spOf, hcode, height_take_segment _ _ _ le_rfl, take_length]

theorem statementsLeaveOne_iff {pre post : List Instr}
    (hcode : code = pre ++ statementsCode env vars (finshTypeCheck vars false tree).1 ++ post)
    (hpre : height pre = 0) (hshape : tree.WellFormed) (hsize : tree.size ≤ FINSH_NODE_MAX)
    (herror : (compileStatements env vars (finshTypeCheck vars false tree).1).filterMap
      Emit.errorType = []) :
    StatementsLeaveOne env vars code (spOf code) pre.length (finshTypeCheck vars false tree).1 ↔
      tree.Covered vars := by
  induction tree generalizing pre with
  | nil => exact Iff.rfl
  | node info child sibling _ ih =>
    obtain ⟨harity, hchildShape, hsiblingShape⟩ := hshape
    simp only [size] at hsize
    have hsingle : (finshTypeCheck vars false (.node info child .nil)).1 =
        .node { info with
          address := info.checkedAddress false
          dataType := leadType vars (.node info child sibling) }
          (finshTypeCheck vars (childAddress info.nodeType false) child).1 .nil := typeCheck_node
    rw [typeCheck_node] at hcode herror ⊢
    simp only [compileStatements, filterMap_append, append_eq_nil_iff] at herror
    obtain ⟨⟨hownError, -⟩, hrestError⟩ := herror
    unfold StatementsLeaveOne
    rw [statementsCode_node] at hcode
    rw [← hsingle] at hcode hownError ⊢
    generalize hown : finshTypeCheck vars false (.node info child .nil) = typed at *
    have hownCode : code = pre ++ treeCode env vars typed.1 ++
        (popCode (finshTypeCheck vars false sibling).1 ++
          statementsCode env vars (finshTypeCheck vars false sibling).1 ++ post) := by
      rw [hcode]
      simp only [append_assoc]
    have hrestCode : code = (pre ++ treeCode env vars typed.1 ++
        popCode (finshTypeCheck vars false sibling).1) ++
          statementsCode env vars (finshTypeCheck vars false sibling).1 ++ post := by
      rw [hcode]
      simp only [append_assoc]
    obtain ⟨heach, hheight⟩ : (EachLeavesOne env vars code (spOf code) pre.length typed.1 ↔
        Covered vars (.node info child .nil)) ∧ (Covered vars (.node info child .nil) →
          height (treeCode env vars typed.1) = (1 : ℕ)) := by
      subst hown
      exact eachLeavesOne_iff hownCode ⟨harity, hchildShape, trivial⟩
        (by simp only [size]; omega) hownError
    have hsp : spOf code pre.length = 0 := by
      have hstartCode : code = pre ++ [] ++ (treeCode env vars typed.1 ++
          popCode (finshTypeCheck vars false sibling).1 ++
          statementsCode env vars (finshTypeCheck vars false sibling).1 ++ post) := by
        rw [append_nil, hcode]
        simp only [append_assoc]
      have hstart := spOf_length pre [] _ hstartCode
      rw [hpre] at hstart
      exact hstart
    have hend := spOf_length pre (treeCode env vars typed.1) _ hownCode
    have hafter : Covered vars (.node info child .nil) →
        (StatementsLeaveOne env vars code (spOf code)
          (pre.length + (treeCode env vars typed.1).length +
            if (finshTypeCheck vars false sibling).1 = .nil then 0 else 1)
          (finshTypeCheck vars false sibling).1 ↔ sibling.Covered vars) := by
      intro hcovered
      by_cases hnil : sibling = .nil
      · subst hnil
        exact Iff.rfl
      · have hpop : height (pre ++ treeCode env vars typed.1 ++
            popCode (finshTypeCheck vars false sibling).1) = 0 := by
          have hne : (finshTypeCheck vars false sibling).1 ≠ .nil := typeCheck_eq_nil.not.mpr hnil
          rw [height_append, height_append, hpre, hheight hcovered, popCode, if_neg hne]
          rfl
        have hrest := ih hrestCode hpop hsiblingShape (by omega) hrestError
        rw [length_append, length_append, length_popCode] at hrest
        exact hrest
    constructor
    · rintro ⟨-, hleaves, -, hrest⟩
      have hcovered := heach.mp hleaves
      exact ⟨hcovered.1, hcovered.2.1, (hafter hcovered).mp hrest⟩
    · rintro ⟨hinfo, hchild, hsibling⟩
      have hcovered : Covered vars (.node info child .nil) := ⟨hinfo, hchild, trivial⟩
      refine ⟨hsp, heach.mpr hcovered, ?_, (hafter hcovered).mpr hsibling⟩
      rw [hend, hpre, hheight hcovered]
      rfl

theorem nonneg_of_statements {pre post : List Instr}
    (hcode : code = pre ++ statementsCode env vars tree ++ post) (hpre : height pre = 0)
    (hleaves : StatementsLeaveOne env vars code (spOf code) pre.length tree) :
    ∀ j ≤ (statementsCode env vars tree).length, 0 ≤ spOf code (pre.length + j) := by
  induction tree generalizing pre with
  | nil =>
    intro j hj
    have hzero : j = 0 := Nat.le_zero.mp hj
    rw [hzero, spOf, hcode, height_take_segment _ _ _ (Nat.zero_le _), hpre]
    exact le_rfl
  | node info child sibling _ ih =>
    obtain ⟨hstart, heach, hend, hrest⟩ := hleaves
    rw [statementsCode_node] at hcode ⊢
    have hownCode : code = pre ++ treeCode env vars (.node info child .nil) ++
        (popCode sibling ++ statementsCode env vars sibling ++ post) := by
      rw [hcode]
      simp only [append_assoc]
    have hrestCode : code = (pre ++ treeCode env vars (.node info child .nil) ++
        popCode sibling) ++ statementsCode env vars sibling ++ post := by
      rw [hcode]
      simp only [append_assoc]
    have hheight := spOf_length pre (treeCode env vars (.node info child .nil)) _ hownCode
    intro j hj
    by_cases hown : j < (treeCode env vars (.node info child .nil)).length
    · have hget : code[pre.length + j]? = (treeCode env vars (.node info child .nil))[j]? := by
        rw [hownCode, getElem?_segment _ _ _ hown]
      have hfed := heach.2.1.fed j hown _ (hget.trans (getElem?_eq_getElem hown))
      lia
    · obtain ⟨i, rfl⟩ := Nat.exists_eq_add_of_le (not_lt.mp hown)
      by_cases hnil : sibling = .nil
      · simp only [popCode, hnil, if_true, append_nil, statementsCode, compileStatements,
          filterMap_nil] at hj
        have hi : i = 0 := by lia
        rw [hi, Nat.add_zero, hend]
        exact zero_le_one
      · cases i with
        | zero =>
          rw [Nat.add_zero, hend]
          exact zero_le_one
        | succ i =>
          have hpop : height (pre ++ treeCode env vars (.node info child .nil) ++
              popCode sibling) = 0 := by
            have hone : height pre + height (treeCode env vars (.node info child .nil)) = 1 :=
              hheight.symm.trans hend
            rw [height_append, height_append, hone, popCode, if_neg hnil]
            rfl
          rw [if_neg hnil] at hrest
          have hlength : (popCode sibling).length = 1 := by
            rw [length_popCode, if_neg hnil]
          have hnext := ih hrestCode hpop (by
            rw [length_append, length_append, hlength]
            exact hrest) i (by
              simp only [length_append, hlength] at hj
              lia)
          have hposition : pre.length +
              ((treeCode env vars (.node info child .nil)).length + (i + 1)) =
              (pre ++ treeCode env vars (.node info child .nil) ++ popCode sibling).length + i := by
            rw [length_append, length_append, hlength]
            lia
          rw [hposition]
          exact hnext

/-! ## Errors and parameters -/

theorem errorType_compileWidth {dataType : ℕ} {code : Width → List Emit}
    (hcode : ∀ w, (code w).filterMap Emit.errorType = []) :
    (compileWidth dataType code).filterMap Emit.errorType = [] := by
  unfold compileWidth
  split
  · exact hcode _
  · rfl

theorem errorType_compileIncrement {info : NodeInfo} {child : Tree}
    {code : BitVec 32 → Width → List Emit}
    (hcode : ∀ addr w, (code addr w).filterMap Emit.errorType = []) :
    (compileIncrement env info child code).filterMap Emit.errorType = [] := by
  unfold compileIncrement
  split
  · split
    · exact errorType_compileWidth (hcode _)
    · rfl
  · rfl

theorem errorType_compileId {info : NodeInfo} :
    (compileId env vars info).filterMap Emit.errorType = [] := by
  have hload : ∀ type address addr,
      (compileLoad type address addr).filterMap errorType = [] := by
    intro type address addr
    unfold compileLoad
    split
    · cases address <;> rfl
    · rfl
  unfold compileId
  split <;> simp [hload, emit, errorType]

theorem ok_notMem_compileStore (dataType : ℕ) :
    FinshError.ok ∉ (compileStore dataType).filterMap Emit.errorType := by
  unfold compileStore
  split <;> simp [emit, errorType]

theorem ok_notMem_compileNode (info : NodeInfo) (child : Tree) :
    FinshError.ok ∉ (compileNode env vars info child).filterMap Emit.errorType := by
  unfold compileNode
  split
  · rw [errorType_compileId]
    exact not_mem_nil
  · simp [emit, errorType]
  · simp [emit, errorType]
  · simp [emit, errorType]
  · simp [emit, errorType]
  · simp [emit, errorType]
  · rw [errorType_compileWidth fun _ => rfl]
    exact not_mem_nil
  · rw [errorType_compileWidth fun _ => rfl]
    exact not_mem_nil
  · split <;> simp [emit, errorType]
  · split
    · split
      · exact ok_notMem_compileStore _
      · split
        · exact ok_notMem_compileStore _
        · simp
    · simp
  · rw [errorType_compileIncrement fun _ _ => rfl]
    exact not_mem_nil
  · rw [errorType_compileIncrement fun _ _ => rfl]
    exact not_mem_nil
  · rw [errorType_compileIncrement fun _ _ => rfl]
    exact not_mem_nil
  · rw [errorType_compileIncrement fun _ _ => rfl]
    exact not_mem_nil
  · decide
  · split
    · simp
    · rw [errorType_compileWidth fun _ => rfl]
      exact not_mem_nil
  · simp
  · simp [errorType]

theorem ok_notMem_finshCompile (tree : Tree) :
    FinshError.ok ∉ (finshCompile env vars tree).filterMap Emit.errorType := by
  induction tree with
  | nil => exact not_mem_nil
  | node info child sibling ihchild ihsibling =>
    rw [finshCompile, filterMap_append, filterMap_append]
    simp only [mem_append, not_or]
    exact ⟨⟨ihchild, ok_notMem_compileNode info child⟩, ihsibling⟩

theorem ok_notMem_compilerErrors (root : Tree) : FinshError.ok ∉ compilerErrors env vars root := by
  have htypes : ∀ isAddr, FinshError.ok ∉ (finshTypeCheck vars isAddr root).2 := by
    induction root with
    | nil => exact fun _ => not_mem_nil
    | node info child sibling ihchild ihsibling =>
      intro isAddr
      simp only [finshTypeCheck, mem_append, not_or]
      refine ⟨⟨ihchild _, ihsibling _⟩, ?_⟩
      split
      · unfold leafDataType
        split
        · split
          · exact not_mem_nil
          · split <;> simp
        all_goals exact not_mem_nil
      · exact not_mem_nil
  have hstatements : ∀ tree, FinshError.ok ∉
      (compileStatements env vars tree).filterMap errorType := by
    intro tree
    induction tree with
    | nil => exact not_mem_nil
    | node info child sibling _ ih =>
      rw [compileStatements, filterMap_append, filterMap_append]
      simp only [mem_append, not_or]
      refine ⟨⟨ok_notMem_finshCompile _, ?_⟩, ih⟩
      split <;> simp [emit, errorType]
  rw [compilerErrors, mem_append, not_or]
  exact ⟨htypes false, hstatements _⟩

theorem compilerErrors_eq_nil {root : Tree} {errno : FinshError}
    (hok : ((compilerErrors env vars root).getLast?).getD errno = .ok) :
    compilerErrors env vars root = [] := by
  by_contra hne
  have hlast := getLast?_eq_some_getLast hne
  rw [hlast, getD_some] at hok
  exact ok_notMem_compilerErrors root (hok ▸ getLast_mem hne)

theorem fits_of_mem {code : List Emit} {instr : Instr}
    (hcode : ∀ op operand, emit op operand ∈ code → op = .syscall → operand.toNat ≤ 16)
    (hmem : instr ∈ code.filterMap Emit.instr) : instr.Fits := by
  intro hsyscall
  obtain ⟨emitted, hemitted, hinstr⟩ := mem_filterMap.mp hmem
  cases emitted with
  | code found =>
    obtain rfl := some.inj hinstr
    exact hcode _ _ hemitted hsyscall
  | error => cases hinstr

theorem fits_compileWidth {dataType : ℕ} {op : Width → Opcode} {instr : Instr}
    (hop : ∀ w, op w ≠ .syscall)
    (hmem : instr ∈ (compileWidth dataType fun w => [emit (op w)]).filterMap Emit.instr) :
    instr.Fits := by
  apply fits_of_mem _ hmem
  intro op' operand hop' hsyscall
  unfold compileWidth at hop'
  split at hop'
  · simp only [mem_singleton, emit, code.injEq, Instr.mk.injEq] at hop'
    exact absurd (hop'.1.symm.trans hsyscall) (hop _)
  · cases hop'

theorem fits_compileIncrement {child : Tree} {code : BitVec 32 → Width → List Emit} {instr : Instr}
    (hcode : ∀ addr w op operand, emit op operand ∈ code addr w → op ≠ .syscall)
    (hmem : instr ∈ (compileIncrement env info child code).filterMap Emit.instr) :
    instr.Fits := by
  apply fits_of_mem _ hmem
  intro op operand hop hsyscall
  unfold compileIncrement at hop
  split at hop
  · split at hop
    · unfold compileWidth at hop
      split at hop
      · exact absurd hsyscall (hcode _ _ _ _ hop)
      · cases hop
    · cases hop
  · cases hop

theorem fits_nodeCode {child : Tree} {instr : Instr}
    (hsize : child.length ≤ FINSH_NODE_MAX) (hmem : instr ∈ nodeCode env vars info child) :
    instr.Fits := by
  have hsingle : ∀ op operand, instr ∈ [emit op operand].filterMap Emit.instr →
      op ≠ .syscall → instr.Fits := by
    intro op operand hmem hne
    apply fits_of_mem _ hmem
    intro op' operand' hop hsyscall
    simp only [mem_singleton, emit, code.injEq, Instr.mk.injEq] at hop
    exact absurd (hop.1.symm.trans hsyscall) hne
  have hload : ∀ type address addr,
      instr ∈ (compileLoad type address addr).filterMap Emit.instr → instr.Fits := by
    intro type address addr hmem
    unfold compileLoad at hmem
    split at hmem
    · cases address <;> exact hsingle _ _ hmem (by simp)
    · cases hmem
  have hstore : ∀ dataType, instr ∈ (compileStore dataType).filterMap Emit.instr →
      instr.Fits := by
    intro dataType hmem
    apply fits_of_mem _ hmem
    intro op operand hop hsyscall
    subst hsyscall
    unfold compileStore at hop
    split at hop <;> simp [emit] at hop
  unfold nodeCode compileNode at hmem
  split at hmem
  · unfold compileId at hmem
    split at hmem
    · exact hsingle _ _ hmem (by simp)
    · exact hload _ _ _ hmem
    · exact hload _ _ _ hmem
    · cases hmem
  · exact hsingle _ _ hmem (by simp)
  · exact hsingle _ _ hmem (by simp)
  · exact hsingle _ _ hmem (by simp)
  · exact hsingle _ _ hmem (by simp)
  · exact hsingle _ _ hmem (by simp)
  · exact fits_compileWidth (fun _ => by simp) hmem
  · exact fits_compileWidth (fun _ => by simp) hmem
  · split at hmem
    · rename_i first grandchild params
      simp only [Tree.length, FINSH_NODE_MAX] at hsize
      simp only [emit, filterMap_cons, filterMap_nil, Emit.instr,
        mem_singleton] at hmem
      intro _
      rw [hmem, BitVec.toNat_ofNat]
      exact (Nat.mod_le _ _).trans (by omega)
    · cases hmem
  · split at hmem
    · split at hmem
      · exact hstore _ hmem
      · split at hmem
        · exact hstore _ hmem
        · cases hmem
    · cases hmem
  · exact fits_compileIncrement (fun addr w op operand hop hsyscall => by
      simp [compilePrefix, emit, hsyscall] at hop) hmem
  · exact fits_compileIncrement (fun addr w op operand hop hsyscall => by
      simp [compilePrefix, emit, hsyscall] at hop) hmem
  · exact fits_compileIncrement (fun addr w op operand hop hsyscall => by
      simp [compileSuffix, emit, hsyscall] at hop) hmem
  · exact fits_compileIncrement (fun addr w op operand hop hsyscall => by
      simp [compileSuffix, emit, hsyscall] at hop) hmem
  · apply fits_of_mem _ hmem
    intro op operand hop hsyscall
    simp [emit, hsyscall] at hop
  · split at hmem
    · cases hmem
    · exact fits_compileWidth (fun _ => by simp) hmem
  · cases hmem
  · cases hmem

theorem fits_treeCode {instr : Instr} (hsize : tree.size ≤ FINSH_NODE_MAX)
    (hmem : instr ∈ treeCode env vars tree) : instr.Fits := by
  induction tree with
  | nil => cases hmem
  | node info child sibling ihchild ihsibling =>
    simp only [Tree.size] at hsize
    have hlength := length_le_size child
    rw [treeCode_node, mem_append, mem_append] at hmem
    obtain (hmem | hmem) | hmem := hmem
    · exact ihchild (by omega) hmem
    · exact fits_nodeCode (by omega) hmem
    · exact ihsibling (by omega) hmem

theorem size_typeCheck (tree : Tree) (isAddr : Bool) :
    (finshTypeCheck vars isAddr tree).1.size = tree.size := by
  induction tree generalizing isAddr with
  | nil => rfl
  | node info child sibling ihchild ihsibling =>
    simp only [finshTypeCheck, size, ihchild, ihsibling]

theorem fits_statementsCode {instr : Instr} (hsize : tree.size ≤ FINSH_NODE_MAX)
    (hmem : instr ∈ statementsCode env vars tree) : instr.Fits := by
  induction tree with
  | nil => cases hmem
  | node info child sibling _ ih =>
    simp only [size] at hsize
    rw [statementsCode_node, mem_append, mem_append] at hmem
    obtain (hmem | hmem) | hmem := hmem
    · exact fits_treeCode (by simp only [size]; omega) hmem
    · unfold popCode at hmem
      split at hmem
      · cases hmem
      · obtain rfl := mem_singleton.mp hmem
        exact fun hop => by cases hop
    · exact ih (by omega) hmem

end Types

/-! ## Lines -/

section Lines

variable {env : FinshEnv} {machine : Machine} {shell : FinshShell} {n : ℕ} {line : List Char}
  {root : Tree} {s : FinshState} {text : List UInt8}

theorem wellFormed_of_parse (hparse : finshParserRun env n line (shell.start line) = some (root, s))
    (herrno : s.errno = .ok) : root.WellFormed ∧ root.size ≤ FINSH_NODE_MAX := by
  obtain ⟨-, hshape, hsize⟩ := makes_finshParserRun _ _ _ hparse herrno
  have hnodes := finshParserRun_relates
    (r := fun s s' => s.nodes ≤ FINSH_NODE_MAX → s'.nodes ≤ FINSH_NODE_MAX)
    (fun _ => id) (fun h h' hle => h' (h hle)) (fun _ => id) nodes_le_of_step hparse
    (Nat.zero_le _)
  exact ⟨hshape, ((Nat.le_add_left _ _).trans hsize).trans hnodes⟩

theorem text_of_compile {vars : FinshVars} {errno : FinshError}
    (hcompile : finshCompilerRun env vars root errno = some (text, .ok)) :
    text = textOf (compilerCode env vars root) ∧
      (encodeAll (compilerCode env vars root)).length ≤ FINSH_TEXT_MAX ∧
      compilerErrors env vars root = [] := by
  unfold finshCompilerRun at hcompile
  dsimp only at hcompile
  split at hcompile
  · rename_i hlength
    simp only [some.injEq, Prod.mk.injEq] at hcompile
    exact ⟨hcompile.1.symm, hlength, compilerErrors_eq_nil hcompile.2⟩
  · cases hcompile

theorem vmLoop_of_accepted {stack : ℤ → BitVec 32} {memory : Memory} {calls : List CallRecord}
    (hparse : finshParserRun env n line (shell.start line) = some (root, s))
    (herrno : s.errno = .ok)
    (hcompile : finshCompilerRun env s.vars root s.errno = some (text, .ok)) (k : ℕ) :
    ∃ pc, vmLoop machine text k (vmStart stack memory calls) =
      some { execAll machine ((compilerCode env s.vars root).take k)
        (vmStart stack memory calls) with pc := pc } := by
  obtain ⟨-, hsize⟩ := wellFormed_of_parse hparse herrno
  obtain ⟨rfl, hlength, -⟩ := text_of_compile hcompile
  have hfits : ∀ instr ∈ compilerCode env s.vars root, instr.Fits := fun instr hmem =>
    fits_statementsCode ((size_typeCheck root false).le.trans hsize) hmem
  exact (vmLoop_textOf hlength hfits k).imp fun _ hloop => hloop.1

/-- The run of an accepted line keeps the stack discipline exactly when no identifier is of
type `void` or `void*`, the first operand of each binary operator has a width, and each
assignment is to a name or to `*p`. -/
theorem stackDiscipline_iff (hparse : finshParserRun env n line (shell.start line) = some (root, s))
    (herrno : s.errno = .ok)
    (hcompile : finshCompilerRun env s.vars root s.errno = some (text, .ok)) :
    StackDiscipline env machine s.vars root text
      (vmStart (clearBottom shell.stack) s.memory shell.calls) ↔ root.Covered s.vars := by
  obtain ⟨hshape, hsize⟩ := wellFormed_of_parse hparse herrno
  obtain ⟨-, hlength, herrors⟩ := text_of_compile hcompile
  have hrun : ∀ k, ∃ pc, vmLoop machine text k
      (vmStart (clearBottom shell.stack) s.memory shell.calls) =
      some { execAll machine ((compilerCode env s.vars root).take k)
        (vmStart (clearBottom shell.stack) s.memory shell.calls) with pc := pc } :=
    vmLoop_of_accepted hparse herrno hcompile
  have hcode : compilerCode env s.vars root =
      [] ++ statementsCode env s.vars (finshTypeCheck s.vars false root).1 ++ [] := by
    rw [nil_append, append_nil]
    rfl
  have hiff := statementsLeaveOne_iff hcode rfl hshape hsize (append_eq_nil_iff.mp herrors).2
  have hsp : ∀ k vm, vmLoop machine text k
      (vmStart (clearBottom shell.stack) s.memory shell.calls) = some vm →
      vm.sp = spOf (compilerCode env s.vars root) k := by
    intro k vm hvm
    obtain ⟨pc, hloop⟩ := hrun k
    obtain rfl := some.inj (hvm.symm.trans hloop)
    exact (execAll_sp _).trans (zero_add _)
  constructor
  · rintro ⟨sp, htrace, -, hleaves⟩
    have heq : sp = spOf (compilerCode env s.vars root) := by
      funext k
      obtain ⟨vm, hvm, hvmsp⟩ := htrace k
      exact hvmsp.symm.trans (hsp k vm hvm)
    exact hiff.mp (heq ▸ hleaves)
  · intro hcovered
    have hleaves := hiff.mpr hcovered
    refine ⟨spOf (compilerCode env s.vars root), ?_, ?_, hleaves⟩
    · intro k
      obtain ⟨pc, hloop⟩ := hrun k
      exact ⟨_, hloop, hsp k _ hloop⟩
    · intro k
      constructor
      · have hnonneg := nonneg_of_statements hcode rfl hleaves
        by_cases hk : k ≤ (compilerCode env s.vars root).length
        · have hpos := hnonneg k hk
          rwa [length_nil, Nat.zero_add] at hpos
        · have hpos := hnonneg _ le_rfl
          rw [length_nil, Nat.zero_add] at hpos
          have htake : (compilerCode env s.vars root).take k = compilerCode env s.vars root :=
            take_of_length_le (by omega)
          have hall : (compilerCode env s.vars root).take
              (statementsCode env s.vars (finshTypeCheck s.vars false root).1).length =
              compilerCode env s.vars root := take_length
          rw [spOf, hall] at hpos
          rwa [spOf, htake]
      · have hheight := two_mul_height_le ((compilerCode env s.vars root).take k)
        have hle := length_encodeAll_take (compilerCode env s.vars root) k
        unfold spOf FINSH_STACK_MAX
        unfold FINSH_TEXT_MAX at hlength
        push_cast
        omega

theorem stackDiscipline_of_small_line : ∃ root s text, finshParserRun smallEnv 9 "a = a + 1;".toList
        (smallShell.start "a = a + 1;".toList) = some (root, s) ∧ s.errno = .ok ∧
      finshCompilerRun smallEnv s.vars root s.errno = some (text, .ok) ∧
      (StackDiscipline smallEnv smallMachine s.vars root text
        (vmStart (clearBottom smallShell.stack) s.memory smallShell.calls) ↔
          root.Covered s.vars) := by
  have hline : ((compileLine smallEnv 9 "a = a + 1;".toList smallShell).map Prod.fst) =
      some (.ok, .ok) := by decide +kernel
  obtain ⟨⟨⟨errno, errno'⟩, root, text⟩, hcompile, herrors⟩ := map_eq_some_iff.mp hline
  obtain ⟨rfl, rfl⟩ := Prod.mk.inj herrors
  obtain ⟨s, hparse, herrno, hcompile⟩ := of_compileLine hcompile
  exact ⟨root, s, text, hparse, herrno, hcompile, stackDiscipline_iff hparse herrno hcompile⟩

/-- For a variable of type `void *` the line `p;` emits no code. -/
theorem stackDiscipline_fails_for_voidp :
    ∃ root s text, finshParserRun smallEnv 9 "p;".toList (smallShell.start "p;".toList) =
        some (root, s) ∧ s.errno = .ok ∧
      finshCompilerRun smallEnv s.vars root s.errno = some (text, .ok) ∧
      ¬StackDiscipline smallEnv smallMachine s.vars root text
        (vmStart (clearBottom smallShell.stack) s.memory smallShell.calls) := by
  have hline : (finshParserRun smallEnv 9 "p;".toList (smallShell.start "p;".toList)).map
      (fun r => (r.1, r.2.errno, (r.2.vars 2).type,
        (finshCompilerRun smallEnv r.2.vars r.1 r.2.errno).map Prod.snd)) =
      some (.node { nodeType := .id, id := some (.var 2) } .nil .nil, .ok, .voidp, some .ok) := by
    decide +kernel
  obtain ⟨⟨root, s⟩, hparse, hresult⟩ := map_eq_some_iff.mp hline
  simp only [Prod.mk.injEq] at hresult
  obtain ⟨rfl, herrno, hvoidp, hcompile⟩ := hresult
  obtain ⟨⟨text, errno⟩, hcompile, rfl⟩ := map_eq_some_iff.mp hcompile
  refine ⟨_, s, text, hparse, herrno, hcompile, ?_⟩
  rintro ⟨sp, -, -, hstart, -, hend, -⟩
  have hempty : ∀ info : NodeInfo, info.nodeType = .id → info.id = some (.var 2) →
      treeCode smallEnv s.vars (.node info .nil .nil) = [] := by
    intro info htype hid
    simp [treeCode, finshCompile, compileNode, htype, compileId, hid, compileLoad, hvoidp,
      FinshType.loadWidth]
  simp only [finshTypeCheck] at hend
  rw [hempty _ rfl rfl, length_nil, Nat.add_zero, hstart] at hend
  exact zero_ne_one hend

end Lines

end RtThread.Finsh
