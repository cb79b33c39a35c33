import RtThread.FinshFreshness

/-!
# Increments and decrements

The code of `++v`, `--v`, `v++` and `v--` takes the address of the value from the
record the identifier points to, as if it was that of a user variable.  The
record of a system variable has no value, but the address of one.  A prefix
operator also reads its result again with four bytes, whatever the type.
-/

namespace RtThread.Finsh

open List Option Nat

inductive IncrementOp
  | preinc | predec | inc | dec

def IncrementOp.nodeType : IncrementOp → NodeType
  | .preinc => .preinc
  | .predec => .predec
  | .inc => .inc
  | .dec => .dec

def IncrementOp.inFront : IncrementOp → Bool
  | .preinc | .predec => true
  | .inc | .dec => false

def IncrementOp.binOp : IncrementOp → BinOp
  | .preinc | .inc => .add
  | .predec | .dec => .sub

def IncrementOp.apply (op : IncrementOp) (w : Width) (value : ℕ) : ℕ :=
  match op with
  | .preinc | .inc => (value + 1) % 256 ^ w.bytes
  | .predec | .dec => (value + (256 ^ w.bytes - 1)) % 256 ^ w.bytes

def IncrementOp.statement (op : IncrementOp) (symbol : Symbol) : Tree :=
  .node { nodeType := op.nodeType } (.node { nodeType := .id, id := some symbol } .nil .nil) .nil

def FinshType.integerWidth : FinshType → Option Width
  | .char | .uchar => some .byte
  | .short | .ushort => some .word
  | .int | .uint | .long | .ulong => some .dword
  | _ => none

def FinshEnv.varAddr (env : FinshEnv) : Symbol → BitVec 32
  | .var i => env.valueAddr (.var i)
  | .sysvar s => s.var
  | .syscall f => f.func

/-- The line steps exactly the variable of `w` bytes and displays the new value for a prefix
operator, the old one for a postfix operator. -/
def Increments (env : FinshEnv) (machine : Machine) (vars : FinshVars) (op : IncrementOp)
    (symbol : Symbol) (w : Width) (stack : ℤ → BitVec 32) (memory : Memory)
    (calls : List CallRecord) : Prop :=
  ∃ text vm, finshCompilerRun env vars (op.statement symbol) .ok = some (text, .ok) ∧
    finshVmRun machine text (clearBottom stack) memory calls = some vm ∧
    vm.memory = memory.store (env.varAddr symbol).toNat w.bytes
      (op.apply w (memory.load (env.varAddr symbol).toNat w.bytes)) ∧
    (vm.stack 0).toNat =
      (if op.inFront then op.apply w (memory.load (env.varAddr symbol).toNat w.bytes)
        else memory.load (env.varAddr symbol).toNat w.bytes) ∧
    vm.calls = calls

/-- The record of the symbol leads to the variable: the value a prefix operator starts from is
that of the variable, and the rest of four bytes is zero; a postfix operator needs the
variable itself. -/
def LeadsToVar (env : FinshEnv) (op : IncrementOp) (symbol : Symbol) (w : Width)
    (memory : Memory) : Prop :=
  if op.inFront then
    memory.load (env.valueAddr symbol).toNat w.bytes =
        memory.load (env.varAddr symbol).toNat w.bytes ∧
      memory.load ((env.varAddr symbol).toNat + w.bytes) (4 - w.bytes) = 0
  else env.valueAddr symbol = env.varAddr symbol

section Cells

variable {w : Width} {x y v : BitVec 32} {n : ℕ}

theorem sameLow_iff : SameLow w.bytes x y ↔ x.toNat % 256 ^ w.bytes = y.toNat % 256 ^ w.bytes := by
  have hpow : 256 ^ w.bytes = 2 ^ (8 * w.bytes) := by
    rw [pow_mul]
    norm_num
  rw [hpow]
  constructor
  · intro hlow
    apply eq_of_testBit_eq
    intro j
    rw [testBit_mod_two_pow, testBit_mod_two_pow]
    by_cases hj : j < 8 * w.bytes
    · exact congrArg _ (hlow j hj)
    · simp only [hj, decide_false, Bool.false_and]
  · intro heq j hj
    have hbit := congrArg (fun n => n.testBit j) heq
    simp only [testBit_mod_two_pow, hj, decide_true, Bool.true_and] at hbit
    exact hbit

theorem sameLow_cellPut : SameLow w.bytes (cellPut w x v) v := by
  intro j hj
  rw [getLsbD_cellPut]
  exact if_pos hj

theorem sameLow_value (machine : Machine) : SameLow w.bytes (machine.value w x) x := by
  intro j hj
  cases w with
  | byte =>
    have hlt : j < 8 := hj
    unfold Machine.value
    dsimp only
    split
    · rw [BitVec.getLsbD_signExtend, if_pos hlt, BitVec.getLsbD_setWidth]
      simp only [hlt, (by omega : j < 32), decide_true, Bool.true_and]
    · rw [getLsbD_cellGet]
      simp only [Width.bits, hj, decide_true, Bool.true_and]
  | word =>
    have hlt : j < 16 := hj
    rw [Machine.value, BitVec.getLsbD_signExtend, if_pos hlt, BitVec.getLsbD_setWidth]
    simp only [hlt, (by omega : j < 32), decide_true, Bool.true_and]
  | dword => rfl

theorem pow_bytes_dvd : 256 ^ w.bytes ∣ 2 ^ 32 := by
  cases w <;> decide

theorem loadField_toNat (memory : Memory) (addr : BitVec 32) :
    (loadField memory w addr).toNat = memory.load addr.toNat w.bytes := by
  have hlt := memory.load_lt addr.toNat w.bytes
  have hle : 256 ^ w.bytes ≤ 2 ^ 32 := le_of_dvd (by decide) pow_bytes_dvd
  rw [loadField, BitVec.toNat_ofNat, mod_eq_of_lt (hlt.trans_le hle)]

theorem stepped_low (machine : Machine) (op : IncrementOp) (hx : x.toNat % 256 ^ w.bytes = n)
    (hy : y.toNat % 256 ^ w.bytes = 1) :
    (cellPut w v (op.binOp.apply (machine.value w x) (machine.value w y))).toNat % 256 ^ w.bytes =
      op.apply w n := by
  have hput := sameLow_iff.mp (@sameLow_cellPut w v
    (op.binOp.apply (machine.value w x) (machine.value w y)))
  have hleft := sameLow_iff.mp (@sameLow_value w x machine)
  have hright := sameLow_iff.mp (@sameLow_value w y machine)
  generalize machine.value w x = a at *
  generalize machine.value w y = b at *
  have hmod : ∀ k, k % 2 ^ 32 % 256 ^ w.bytes = k % 256 ^ w.bytes :=
    fun k => mod_mod_of_dvd k pow_bytes_dvd
  rw [hput]
  cases op with
  | preinc | inc =>
    simp only [IncrementOp.binOp, BinOp.apply, IncrementOp.apply]
    rw [BitVec.toNat_add, hmod, add_mod, hleft, hright, hx, hy]
  | predec | dec =>
    simp only [IncrementOp.binOp, BinOp.apply, IncrementOp.apply]
    rw [BitVec.toNat_sub, hmod]
    have hlt := b.isLt
    cases w <;> simp only [Width.bytes, reducePow] at * <;> lia

theorem apply_lt (op : IncrementOp) (w : Width) (n : ℕ) : op.apply w n < 256 ^ w.bytes := by
  have hpos : 0 < 256 ^ w.bytes := by cases w <;> decide
  cases op <;> exact mod_lt _ hpos

theorem apply_inj {op : IncrementOp} {m : ℕ} (hn : n < 256 ^ w.bytes) (hm : m < 256 ^ w.bytes)
    (heq : op.apply w n = op.apply w m) : n = m := by
  cases op <;> cases w <;> simp only [IncrementOp.apply, Width.bytes, reducePow] at * <;> lia

theorem apply_ne (op : IncrementOp) (hn : n < 256 ^ w.bytes) : op.apply w n % 256 ≠ n % 256 := by
  cases op <;> cases w <;> simp only [IncrementOp.apply, Width.bytes, reducePow] at * <;> lia

end Cells

section Code

variable {env : FinshEnv} {machine : Machine} {vars : FinshVars} {op : IncrementOp}
  {symbol : Symbol} {type : FinshType} {w : Width} {d : ℕ} {stack : ℤ → BitVec 32}
  {memory : Memory} {calls : List CallRecord}

theorem integerWidth_cases (hwidth : type.integerWidth = some w) :
    type.loadWidth = some w ∧ ∃ d, type.dataType = some d ∧ dataWidth d = some w := by
  cases type <;> cases hwidth <;> exact ⟨rfl, _, rfl, rfl⟩

theorem typeCheck_statement (htype : symbol.type vars = some type)
    (hdata : type.dataType = some d) : finshTypeCheck vars false (op.statement symbol) =
      (.node { nodeType := op.nodeType, dataType := d }
        (.node { nodeType := .id, id := some symbol, address := op.inFront, dataType := d }
          .nil .nil) .nil, []) := by
  cases symbol with
  | syscall f => cases htype
  | var i | sysvar s =>
    cases op <;>
      simp [IncrementOp.statement, IncrementOp.nodeType, IncrementOp.inFront, finshTypeCheck,
        childAddress, leafDataType, htype, hdata, NodeInfo.isSyscall]

def incrementCode (env : FinshEnv) (op : IncrementOp) (symbol : Symbol) (w : Width) : List Instr :=
  if op.inFront then
    [⟨.ld .dword, env.varAddr symbol⟩, ⟨.ldValue w, env.valueAddr symbol⟩, ⟨.ld w, 1⟩,
      ⟨.binary op.binOp w, 0⟩, ⟨.st w, 0⟩, ⟨.ldValueStack .dword, 0⟩]
  else
    [⟨.ldValue w, env.varAddr symbol⟩, ⟨.ld .dword, env.valueAddr symbol⟩,
      ⟨.ldValue w, env.valueAddr symbol⟩, ⟨.ld w, 1⟩, ⟨.binary op.binOp w, 0⟩, ⟨.st w, 0⟩,
      ⟨.pop, 0⟩]

theorem length_incrementCode :
    (encodeAll (incrementCode env op symbol w)).length ≤ FINSH_TEXT_MAX := by
  unfold incrementCode
  split <;> cases w <;>
    simp [encodeAll, Instr.length_encode, Opcode.operandBytes, Width.bytes, FINSH_TEXT_MAX]

section

variable (htype : symbol.type vars = some type)
include htype

theorem compileId_var {address : Bool}
    (hload : type.loadWidth = some w) : compileId env vars
        { nodeType := .id, id := some symbol, address := address, dataType := d } =
      [if address then emit (.ld .dword) (env.varAddr symbol)
        else emit (.ldValue w) (env.varAddr symbol)] := by
  cases symbol with
  | syscall f => cases htype
  | var i | sysvar s =>
    obtain rfl := some.inj htype
    simp only [compileId, compileLoad, hload, FinshEnv.varAddr]

theorem compilerEmits_statement
    (hwidth : type.integerWidth = some w) :
    compilerEmits env vars (op.statement symbol) = (incrementCode env op symbol w).map .code := by
  obtain ⟨hload, d, hdata, hd⟩ := integerWidth_cases hwidth
  have hid : ∀ address, finshCompile env vars
      (.node { nodeType := .id, id := some symbol, address := address, dataType := d } .nil .nil) =
      [if address then emit (.ld .dword) (env.varAddr symbol)
        else emit (.ldValue w) (env.varAddr symbol)] := by
    intro address
    simp only [finshCompile, compileNode, nil_append, append_nil]
    exact compileId_var htype hload
  rw [compilerEmits, typeCheck_statement htype hdata, compileStatements, if_pos rfl,
    compileStatements, append_nil, append_nil, finshCompile, hid, finshCompile,
    append_nil]
  cases op <;>
    simp [IncrementOp.nodeType, IncrementOp.inFront, compileNode, compileIncrement, compileWidth, hd,
      compilePrefix, compileSuffix, incrementCode, IncrementOp.binOp, emit]

theorem finshCompilerRun_statement
    (hwidth : type.integerWidth = some w) : finshCompilerRun env vars (op.statement symbol) .ok =
      some (textOf (incrementCode env op symbol w), .ok) := by
  obtain ⟨-, d, hdata, -⟩ := integerWidth_cases hwidth
  have hemits := @compilerEmits_statement env vars op symbol type w htype hwidth
  have hcode : compilerCode env vars (op.statement symbol) = incrementCode env op symbol w := by
    rw [compilerCode, hemits, filterMap_map]
    exact filterMap_some
  have herrors : compilerErrors env vars (op.statement symbol) = [] := by
    rw [compilerErrors, typeCheck_statement htype hdata, hemits, filterMap_map,
      nil_append]
    exact filterMap_eq_nil_iff.mpr fun _ _ => rfl
  rw [finshCompilerRun, hcode, herrors, if_pos length_incrementCode]
  rfl

end

def steppedCell (env : FinshEnv) (machine : Machine) (op : IncrementOp) (symbol : Symbol) (w : Width)
    (low high : BitVec 32) (memory : Memory) : BitVec 32 :=
  cellPut w (cellPut w low (loadField memory w (env.valueAddr symbol)))
    (op.binOp.apply (machine.value w (cellPut w low (loadField memory w (env.valueAddr symbol))))
      (machine.value w (cellPut w high 1)))

theorem cellPut_dword (x v : BitVec 32) : cellPut .dword x v = v :=
  SameLow.eq fun j hj => by
    rw [getLsbD_cellPut]
    exact if_pos hj

theorem finshVmRun_incrementCode :
    ∃ pc, finshVmRun machine (textOf (incrementCode env op symbol w)) stack memory calls =
      some { execAll machine (incrementCode env op symbol w) (vmStart stack memory calls) with
        pc := pc } := by
  have hfits : ∀ instr ∈ incrementCode env op symbol w, instr.Fits := by
    intro instr hmem hsyscall
    unfold incrementCode at hmem
    split at hmem <;> simp at hmem <;> grind
  have hshort : (incrementCode env op symbol w).length ≤ FINSH_TEXT_MAX :=
    (length_le_encodeAll _).trans length_incrementCode
  obtain ⟨pc, hloop, -⟩ := @vmLoop_textOf machine _ stack memory calls length_incrementCode hfits
    FINSH_TEXT_MAX
  rw [take_of_length_le hshort] at hloop
  exact ⟨pc, hloop⟩

theorem execAll_inFront (hfront : op.inFront = true) :
    (execAll machine (incrementCode env op symbol w) (vmStart stack memory calls)).memory =
        memory.store (env.varAddr symbol).toNat w.bytes
          (steppedCell env machine op symbol w (stack 1) (stack 2) memory).toNat ∧
      (execAll machine (incrementCode env op symbol w) (vmStart stack memory calls)).stack 0 =
        loadField (memory.store (env.varAddr symbol).toNat w.bytes
          (steppedCell env machine op symbol w (stack 1) (stack 2) memory).toNat) .dword
          (env.varAddr symbol) ∧
      (execAll machine (incrementCode env op symbol w) (vmStart stack memory calls)).calls =
        calls := by
  rw [incrementCode, if_pos hfront]
  simp [execAll, Instr.execute, Opcode.execute, FinshVm.push, FinshVm.setCell, vmStart,
    cellPut_dword, steppedCell]

theorem execAll_behind (hbehind : op.inFront = false) :
    (execAll machine (incrementCode env op symbol w) (vmStart stack memory calls)).memory =
        memory.store (env.valueAddr symbol).toNat w.bytes
          (steppedCell env machine op symbol w (stack 2) (stack 3) memory).toNat ∧
      (execAll machine (incrementCode env op symbol w) (vmStart stack memory calls)).stack 0 =
        cellPut w (stack 0) (loadField memory w (env.varAddr symbol)) ∧
      (execAll machine (incrementCode env op symbol w) (vmStart stack memory calls)).calls =
        calls := by
  rw [incrementCode, hbehind, if_neg Bool.false_ne_true]
  simp [execAll, Instr.execute, Opcode.execute, FinshVm.push, FinshVm.setCell, vmStart,
    cellPut_dword, steppedCell]

theorem steppedCell_low (low high : BitVec 32) :
    (steppedCell env machine op symbol w low high memory).toNat % 256 ^ w.bytes =
      op.apply w (memory.load (env.valueAddr symbol).toNat w.bytes) := by
  apply stepped_low
  · have hput := sameLow_iff.mp (@sameLow_cellPut w low (loadField memory w (env.valueAddr symbol)))
    rw [hput, loadField_toNat]
    exact mod_eq_of_lt (memory.load_lt _ _)
  · have hput := sameLow_iff.mp (@sameLow_cellPut w high 1)
    rw [hput]
    cases w <;> rfl

theorem store_steppedCell (low high : BitVec 32) (addr : ℕ) :
    memory.store addr w.bytes (steppedCell env machine op symbol w low high memory).toNat =
      memory.store addr w.bytes
        (op.apply w (memory.load (env.valueAddr symbol).toNat w.bytes)) := by
  apply store_congr
  rw [steppedCell_low, mod_eq_of_lt (apply_lt _ _ _)]

theorem load_add (m : Memory) (addr a b : ℕ) :
    m.load addr (a + b) = m.load addr a + 256 ^ a * m.load (addr + a) b := by
  induction a generalizing addr with
  | zero => simp [Memory.load]
  | succ a ih =>
    have hindex : addr + 1 + a = addr + (a + 1) := by omega
    rw [succ_add, Memory.load, ih, Memory.load, hindex, pow_succ]
    ring

theorem load_four_store (m : Memory) (addr value : ℕ) (hvalue : value < 256 ^ w.bytes) :
    (m.store addr w.bytes value).load addr 4 =
      value + 256 ^ w.bytes * m.load (addr + w.bytes) (4 - w.bytes) := by
  have hfour : 4 = w.bytes + (4 - w.bytes) := by cases w <;> rfl
  rw [hfour, load_add, Memory.load_store_same, mod_eq_of_lt hvalue,
    Memory.load_store_of_apart m (.inr le_rfl)]
  simp

theorem cellPut_zero {v : BitVec 32} (hv : v.toNat < 256 ^ w.bytes) : cellPut w 0 v = v := by
  apply BitVec.eq_of_getLsbD_eq
  intro j _
  rw [getLsbD_cellPut]
  split
  · rfl
  · rename_i hj
    have hpow : 256 ^ w.bytes = 2 ^ w.bits := by
      rw [Width.bits, pow_mul]
      norm_num
    have hle : 2 ^ w.bits ≤ 2 ^ j := Nat.pow_le_pow_right (by decide) (Nat.not_lt.mp hj)
    have hbit : v.toNat.testBit j = false := testBit_lt_two_pow (by omega)
    exact BitVec.getLsbD_zero.trans hbit.symm

theorem store_step_inj {m : Memory} {a b : ℕ}
    (heq : m.store a w.bytes (op.apply w (m.load a w.bytes)) =
      m.store b w.bytes (op.apply w (m.load b w.bytes))) : a = b := by
  have hpos : 0 < w.bytes := by cases w <;> decide
  have hbyte : ∀ addr, m.load addr w.bytes % 256 = (m addr).toNat := by
    intro addr
    obtain ⟨n, hn⟩ := exists_eq_succ_of_ne_zero hpos.ne'
    have hlt := (m addr).toNat_lt
    rw [hn, Memory.load]
    omega
  have hchanged : ∀ addr, (m.store addr w.bytes (op.apply w (m.load addr w.bytes))) addr ≠
      m addr := by
    intro addr hsame
    have hnat := congrArg UInt8.toNat hsame
    rw [Memory.store, if_pos ⟨le_rfl, Nat.lt_add_of_pos_right hpos⟩, Nat.sub_self, pow_zero,
      Nat.div_one, UInt8.toNat_ofNat', ← hbyte] at hnat
    exact apply_ne op (m.load_lt addr w.bytes) hnat
  have hkept : ∀ addr other value, other < addr → (m.store addr w.bytes value) other = m other := by
    intro addr other value hlt
    rw [Memory.store, if_neg (by omega)]
  obtain hlt | rfl | hlt := lt_trichotomy a b
  · have hat := congrFun heq a
    rw [hkept b a _ hlt] at hat
    exact absurd hat (hchanged a)
  · rfl
  · have hat := congrFun heq b
    rw [hkept a b _ hlt] at hat
    exact absurd hat.symm (hchanged b)

theorem increments_iff_execAll (htype : symbol.type vars = some type)
    (hwidth : type.integerWidth = some w) {vm : FinshVm}
    (hvm : execAll machine (incrementCode env op symbol w)
      (vmStart (clearBottom stack) memory calls) = vm) :
    Increments env machine vars op symbol w stack memory calls ↔
      vm.memory = memory.store (env.varAddr symbol).toNat w.bytes
        (op.apply w (memory.load (env.varAddr symbol).toNat w.bytes)) ∧ (vm.stack 0).toNat =
        (if op.inFront then op.apply w (memory.load (env.varAddr symbol).toNat w.bytes)
          else memory.load (env.varAddr symbol).toNat w.bytes) ∧ vm.calls = calls := by
  have hcompile := @finshCompilerRun_statement env vars op symbol type w htype hwidth
  obtain ⟨pc, hrun⟩ := @finshVmRun_incrementCode env machine op symbol w (clearBottom stack) memory
    calls
  rw [hvm] at hrun
  constructor
  · rintro ⟨text, vm', htext, hvm', hmemory, hdisplay, hcalls⟩
    obtain ⟨rfl, -⟩ := Prod.mk.inj (some.inj (hcompile.symm.trans htext))
    obtain rfl := some.inj (hrun.symm.trans hvm')
    exact ⟨hmemory, hdisplay, hcalls⟩
  · rintro ⟨hmemory, hdisplay, hcalls⟩
    exact ⟨_, _, hcompile, hrun, hmemory, hdisplay, hcalls⟩

/-- A prefix operator stores and reads back the right value exactly when it starts from that of
the variable, and nothing else stands in the four bytes it reads. -/
theorem inFront_iff : memory.store (env.varAddr symbol).toNat w.bytes
          (op.apply w (memory.load (env.valueAddr symbol).toNat w.bytes)) =
        memory.store (env.varAddr symbol).toNat w.bytes
          (op.apply w (memory.load (env.varAddr symbol).toNat w.bytes)) ∧
      (memory.store (env.varAddr symbol).toNat w.bytes
          (op.apply w (memory.load (env.valueAddr symbol).toNat w.bytes))).load
            (env.varAddr symbol).toNat 4 =
        op.apply w (memory.load (env.varAddr symbol).toNat w.bytes) ↔
    memory.load (env.valueAddr symbol).toNat w.bytes =
        memory.load (env.varAddr symbol).toNat w.bytes ∧
      memory.load ((env.varAddr symbol).toNat + w.bytes) (4 - w.bytes) = 0 := by
  have hpos : 0 < 256 ^ w.bytes := by cases w <;> decide
  rw [load_four_store _ _ _ (apply_lt _ _ _)]
  constructor
  · rintro ⟨hstore, hdisplay⟩
    have hload := congrArg (fun m => m.load (env.varAddr symbol).toNat w.bytes) hstore
    simp only [Memory.load_store_same, mod_eq_of_lt (apply_lt _ _ _)] at hload
    have hsame := apply_inj (memory.load_lt _ _) (memory.load_lt _ _) hload
    rw [hsame] at hdisplay
    have hzero := add_eq_left.mp hdisplay
    exact ⟨hsame, (Nat.mul_eq_zero.mp hzero).resolve_left hpos.ne'⟩
  · rintro ⟨hsame, hzero⟩
    rw [hsame, hzero]
    exact ⟨rfl, rfl⟩

/-- The statement steps exactly its variable, and displays the right value, if and only if the
record of its symbol leads to the variable. -/
theorem increments_iff (htype : symbol.type vars = some type)
    (hwidth : type.integerWidth = some w) :
    Increments env machine vars op symbol w stack memory calls ↔
      LeadsToVar env op symbol w memory := by
  rw [increments_iff_execAll htype hwidth rfl, LeadsToVar]
  cases hfront : op.inFront with
  | true =>
    obtain ⟨hmemory, hcell, hcalls⟩ :=
      @execAll_inFront env machine op symbol w (clearBottom stack) memory calls hfront
    rw [store_steppedCell] at hmemory hcell
    rw [hmemory, hcell, hcalls, loadField_toNat]
    simp only [if_true, and_true]
    exact inFront_iff
  | false =>
    obtain ⟨hmemory, hcell, hcalls⟩ :=
      @execAll_behind env machine op symbol w (clearBottom stack) memory calls hfront
    have hbottom : clearBottom stack 0 = 0 := Function.update_self _ _ _
    have hlt : (loadField memory w (env.varAddr symbol)).toNat < 256 ^ w.bytes := by
      rw [loadField_toNat]
      exact memory.load_lt _ _
    rw [store_steppedCell] at hmemory
    rw [hbottom, cellPut_zero hlt] at hcell
    rw [hmemory, hcell, hcalls, loadField_toNat]
    simp only [Bool.false_eq_true, if_false, and_true]
    constructor
    · intro hstore
      exact BitVec.eq_of_toNat_eq (store_step_inj hstore)
    · intro hsame
      rw [hsame]

theorem increments_small :
    Increments smallEnv smallMachine smallVars .preinc (.var 0) .dword (fun _ => 0) (fun _ => 0) [] ↔
      LeadsToVar smallEnv .preinc (.var 0) .dword (fun _ => 0) :=
  increments_iff rfl rfl

theorem leadsToVar_var (i : Fin FINSH_VARIABLE_MAX) : LeadsToVar env op (.var i) w memory ↔
      (op.inFront = true →
        memory.load ((env.valueAddr (.var i)).toNat + w.bytes) (4 - w.bytes) = 0) := by
  unfold LeadsToVar
  cases op.inFront <;> simp [FinshEnv.varAddr]

def tickVar : FinshSysvar where
  name := "tick".toList
  type := .int
  var := 0x20003000
  entry := 0x08003000

/-- `tick++` for a system variable steps its record in the table. -/
theorem tick_not_stepped :
    (¬∀ (env : FinshEnv) (machine : Machine) (vars : FinshVars) (op : IncrementOp)
      (symbol : Symbol) (type : FinshType) (w : Width) (stack : ℤ → BitVec 32) (memory : Memory)
      (calls : List CallRecord), symbol.type vars = some type → type.integerWidth = some w →
        Increments env machine vars op symbol w stack memory calls) ∧
    ((finshCompilerRun smallEnv smallVars (IncrementOp.inc.statement (.sysvar tickVar)) .ok).bind
      fun result => (finshVmRun smallMachine result.1 (fun _ => 0) (fun _ => 0) []).map
        fun vm => (vm.memory 0x20003000, vm.memory 0x08003014)) = some (0, 1) := by
  have hrun : ((finshCompilerRun smallEnv smallVars
      (IncrementOp.inc.statement (.sysvar tickVar)) .ok).bind
      fun result => (finshVmRun smallMachine result.1 (clearBottom fun _ => 0) (fun _ => 0) []).map
        fun vm => vm.memory 0x20003000) = some 0 := by
    decide +kernel
  refine ⟨fun hall => ?_, by decide +kernel⟩
  obtain ⟨text, vm, htext, hvm, hmemory, -⟩ := hall smallEnv smallMachine smallVars .inc
    (.sysvar tickVar) .int .dword (fun _ => 0) (fun _ => 0) [] rfl rfl
  rw [htext, bind_some, hvm, map_some, hmemory] at hrun
  exact absurd hrun (by decide +kernel)

end Code

end RtThread.Finsh
