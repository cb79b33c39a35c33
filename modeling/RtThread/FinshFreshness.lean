import RtThread.FinshStack

/-!
# What earlier commands leave on the stack

A byte or a word written to a stack cell leaves the bytes above it as they
were, and only the bottom cell is cleared between commands.  The code of a line
tells, without running it, which bytes of each cell the line has written so
far; an instruction that reads no other byte behaves the same on every stack.
-/

namespace RtThread.Finsh

open Function List Option

section Cells

variable {w : Width} {n n' j : ℕ} {x y v v' : BitVec 32}

def SameLow (n : ℕ) (x y : BitVec 32) : Prop := ∀ j < 8 * n, x.getLsbD j = y.getLsbD j

theorem SameLow.mono (hlow : SameLow n x y) (hle : n' ≤ n) : SameLow n' x y :=
  fun j hj => hlow j (hj.trans_le (Nat.mul_le_mul_left 8 hle))

theorem SameLow.eq (hlow : SameLow 4 x y) : x = y := BitVec.eq_of_getLsbD_eq hlow

theorem getLsbD_cellGet : (cellGet w x).getLsbD j = (decide (j < w.bits) && x.getLsbD j) := by
  rw [cellGet, BitVec.getLsbD_setWidth, BitVec.getLsbD_setWidth]
  by_cases hj : j < 32
  · simp only [hj, decide_true, Bool.true_and]
  · rw [BitVec.getLsbD_of_ge x j (not_lt.mp hj), Bool.and_false, Bool.and_false]

theorem getLsbD_cellPut :
    (cellPut w x v).getLsbD j = if j < w.bits then v.getLsbD j else x.getLsbD j := by
  rw [cellPut, BitVec.getLsbD_or, getLsbD_cellGet, BitVec.getLsbD_shiftLeft,
    BitVec.getLsbD_ushiftRight]
  by_cases hj : j < w.bits
  · simp only [hj, decide_true, Bool.true_and, Bool.not_true, Bool.and_false, Bool.false_and,
      Bool.or_false, if_true]
  · have hback : w.bits + (j - w.bits) = j := Nat.add_sub_of_le (not_lt.mp hj)
    simp only [hj, decide_false, Bool.false_and, Bool.not_false, Bool.and_true, Bool.false_or,
      if_false, hback]
    by_cases hlt : j < 32
    · simp only [hlt, decide_true, Bool.true_and]
    · rw [BitVec.getLsbD_of_ge x j (not_lt.mp hlt), Bool.and_false]

theorem SameLow.cellGet_eq (hlow : SameLow w.bytes x y) : cellGet w x = cellGet w y := by
  apply BitVec.eq_of_getLsbD_eq
  intro j _
  rw [getLsbD_cellGet, getLsbD_cellGet]
  by_cases hj : j < w.bits
  · rw [hlow j hj]
  · simp only [hj, decide_false, Bool.false_and]

theorem SameLow.cellPut (hlow : SameLow n x y) (hvalue : SameLow w.bytes v v') :
    SameLow (max n w.bytes) (cellPut w x v) (cellPut w y v') := by
  intro j hj
  rw [getLsbD_cellPut, getLsbD_cellPut]
  split
  · rename_i hin
    exact hvalue j hin
  · rename_i hout
    apply hlow
    unfold Width.bits at hout
    omega

theorem setWidth_eq_of_sameLow (hlow : SameLow w.bytes x y) :
    x.setWidth w.bits = y.setWidth w.bits := by
  apply BitVec.eq_of_getLsbD_eq
  intro j hj
  rw [BitVec.getLsbD_setWidth, BitVec.getLsbD_setWidth, hlow j hj]

theorem SameLow.value_eq (machine : Machine) (hlow : SameLow w.bytes x y) :
    machine.value w x = machine.value w y := by
  have hwidth := setWidth_eq_of_sameLow hlow
  cases w with
  | byte => simp only [Machine.value, hlow.cellGet_eq, show x.setWidth 8 = y.setWidth 8 from hwidth]
  | word => simp only [Machine.value, show x.setWidth 16 = y.setWidth 16 from hwidth]
  | dword => exact hlow.eq

theorem store_congr {m : Memory} {addr width value value' : ℕ}
    (hmod : value % 256 ^ width = value' % 256 ^ width) :
    m.store addr width value = m.store addr width value' := by
  funext i
  unfold Memory.store
  split
  · rename_i hin
    have hdigit : value / 256 ^ (i - addr) % 256 = value' / 256 ^ (i - addr) % 256 := by
      have hsplit : 256 ^ width = 256 ^ (i - addr) * (256 * 256 ^ (width - (i - addr) - 1)) := by
        rw [← pow_succ', ← pow_add]
        congr 1
        omega
      have hdiv := congrArg (fun v => v / 256 ^ (i - addr) % 256) hmod
      simpa only [hsplit, Nat.mod_mul_right_div_self, Nat.mod_mul_right_mod] using hdiv
    apply UInt8.toNat_inj.mp
    simpa using hdigit
  · rfl

theorem SameLow.store_eq (m : Memory) (addr : ℕ) (hlow : SameLow w.bytes x y) :
    m.store addr w.bytes x.toNat = m.store addr w.bytes y.toNat := by
  apply store_congr
  have hwidth := congrArg BitVec.toNat (setWidth_eq_of_sameLow hlow)
  have hpow : 2 ^ w.bits = 256 ^ w.bytes := by
    rw [Width.bits, pow_mul]
    rfl
  simpa only [BitVec.toNat_setWidth, hpow] using hwidth

end Cells

def Instr.reads (instr : Instr) (sp : ℤ) : List (ℤ × ℕ) :=
  match instr.op with
  | .noop | .pop | .ld _ | .ldValue _ => []
  | .binary _ w => [(sp - 2, w.bytes), (sp - 1, w.bytes)]
  | .bitwise w => [(sp - 1, w.bytes)]
  | .st w => [(sp - 2, 4), (sp - 1, w.bytes)]
  | .syscall => (List.range (instr.operand.toNat + 1)).map fun (j : ℕ) => (sp - 1 - j, 4)
  | .ldValueStack _ => [(sp - 1, 4)]

def Instr.writes (instr : Instr) (sp : ℤ) : Option (ℤ × ℕ) :=
  match instr.op with
  | .noop | .pop | .st _ => none
  | .binary _ w => some (sp - 2, w.bytes)
  | .bitwise w | .ldValueStack w => some (sp - 1, w.bytes)
  | .ld w | .ldValue w => some (sp, w.bytes)
  | .syscall => some (sp - 1 - instr.operand.toNat, 4)

/-- The bytes the code has surely written above the stack it found. -/
structure Written where
  bytes : ℤ → ℕ
  sp : ℤ

def Written.start : Written where
  bytes := fun i => if i = 0 then 4 else 0
  sp := 0

def Written.after (written : Written) (instr : Instr) : Written where
  bytes := match instr.writes written.sp with
    | none => written.bytes
    | some (i, n) => update written.bytes i (max (written.bytes i) n)
  sp := written.sp + instr.net

def Instr.ReadsWritten (instr : Instr) (written : Written) : Prop :=
  ∀ cell ∈ instr.reads written.sp, cell.2 ≤ written.bytes cell.1

instance (instr : Instr) (written : Written) : Decidable (instr.ReadsWritten written) :=
  inferInstanceAs (Decidable (∀ _ ∈ _, _))

def ReadsWritten : List Instr → Written → Prop
  | [], _ => True
  | instr :: code, written =>
    instr.ReadsWritten written ∧ ReadsWritten code (written.after instr)

instance decidableReadsWritten : ∀ code written, Decidable (ReadsWritten code written)
  | [], _ => isTrue trivial
  | instr :: code, written =>
    haveI := decidableReadsWritten code (written.after instr)
    inferInstanceAs (Decidable (_ ∧ _))

section Runs

variable {machine : Machine} {written : Written} {vm vm' : FinshVm} {instr : Instr}
  {code : List Instr} {stack stack' : ℤ → BitVec 32}

def SameCells (bytes : ℤ → ℕ) (stack stack' : ℤ → BitVec 32) : Prop :=
  ∀ i, SameLow (bytes i) (stack i) (stack' i)

/-- Two machines which agree on every byte written so far. -/
structure Agree (written : Written) (vm vm' : FinshVm) : Prop where
  sp : vm.sp = written.sp
  sp' : vm'.sp = vm.sp
  memory : vm'.memory = vm.memory
  calls : vm'.calls = vm.calls
  cells : SameCells written.bytes vm.stack vm'.stack

theorem Agree.eq_withStack (hagree : Agree written vm vm') :
    vm' = { vm with stack := vm'.stack, pc := vm'.pc } := by
  obtain ⟨-, hsp, hmemory, hcalls, -⟩ := hagree
  rw [← hsp, ← hmemory, ← hcalls]

theorem SameCells.low {i : ℤ} {n : ℕ} (hcells : SameCells written.bytes stack stack')
    (hreads : instr.ReadsWritten written) (hmem : (i, n) ∈ instr.reads written.sp) :
    SameLow n (stack i) (stack' i) :=
  (hcells i).mono (hreads _ hmem)

theorem SameCells.write {bytes : ℤ → ℕ} {i : ℤ} {n : ℕ} {x y : BitVec 32}
    (hcells : SameCells bytes stack stack') (hlow : SameLow (max (bytes i) n) x y) :
    SameCells (update bytes i (max (bytes i) n)) (update stack i x)
      (update stack' i y) := by
  intro k
  by_cases hk : k = i
  · subst hk
    rwa [update_self, update_self, update_self]
  · rw [update_of_ne hk, update_of_ne hk, update_of_ne hk]
    exact hcells k

theorem SameCells.put {bytes : ℤ → ℕ} {i : ℤ} {w : Width} {v v' : BitVec 32}
    (hcells : SameCells bytes stack stack') (hvalue : v' = v) :
    SameCells (update bytes i (max (bytes i) w.bytes))
      (update stack i (cellPut w (stack i) v))
      (update stack' i (cellPut w (stack' i) v')) := by
  subst hvalue
  exact hcells.write ((hcells i).cellPut fun _ _ => rfl)

theorem parameters_withStack {n pc : ℕ}
    (hlow : ∀ j < n, vm.stack (vm.sp - 1 - (j : ℕ)) = stack' (vm.sp - 1 - (j : ℕ))) :
    { vm with stack := stack', pc := pc }.parameters n = vm.parameters n := by
  unfold FinshVm.parameters
  split
  · rfl
  · apply map_congr_left
    intro j hj
    have hlt : j < n := mem_range.mp hj
    have hcell : vm.sp - n + j = vm.sp - 1 - ((n - 1 - j : ℕ) : ℤ) := by omega
    change stack' (vm.sp - n + j) = vm.stack (vm.sp - n + j)
    rw [hcell, hlow _ (by omega)]

theorem opCall_withStack (machine : Machine) (pc : ℕ) {n : ℕ}
    (hlow : ∀ j < n + 1, vm.stack (vm.sp - 1 - (j : ℕ)) = stack' (vm.sp - 1 - (j : ℕ))) :
    { vm with stack := stack', pc := pc }.opCall machine n =
      { vm.opCall machine n with
        stack := update stack' (vm.sp - 1 - n)
          (machine.call (vm.stack (vm.sp - 1 - n)) (vm.parameters n) vm.memory).1
        pc := pc } := by
  have hparameters : { vm with stack := stack', pc := pc }.parameters n = vm.parameters n :=
    parameters_withStack fun j hj => hlow j (Nat.lt_succ_of_lt hj)
  unfold FinshVm.opCall
  dsimp only
  rw [hparameters, ← hlow n (Nat.lt_succ_self n)]
  rfl

theorem SameCells.execute {pc : ℕ} (hsp : vm.sp = written.sp)
    (hcells : SameCells written.bytes vm.stack stack') (hreads : instr.ReadsWritten written) :
    SameCells (written.after instr).bytes (instr.execute machine vm).stack
      (instr.execute machine { vm with stack := stack', pc := pc }).stack := by
  have hlow : ∀ {i n}, (i, n) ∈ instr.reads written.sp → SameLow n (vm.stack i) (stack' i) :=
    fun hmem => hcells.low hreads hmem
  obtain ⟨op, operand⟩ := instr
  obtain ⟨bytes, sp⟩ := written
  obtain rfl : vm.sp = sp := hsp
  cases op with
  | noop | pop | st w => exact hcells
  | binary op w =>
    have hx := (hlow (.head _)).value_eq machine
    have hy := (hlow (.tail _ (.head _))).value_eq machine
    exact hcells.put (by rw [hx, hy])
  | bitwise w =>
    have hnot : SameLow w.bytes (~~~vm.stack (vm.sp - 1)) (~~~stack' (vm.sp - 1)) := by
      intro j hj
      rw [BitVec.getLsbD_not, BitVec.getLsbD_not, hlow (.head _) j hj]
    exact hcells.write ((hcells _).cellPut hnot)
  | ld w | ldValue w => exact hcells.put rfl
  | syscall =>
    have hsame : ∀ j < operand.toNat + 1,
        vm.stack (vm.sp - 1 - (j : ℕ)) = stack' (vm.sp - 1 - (j : ℕ)) :=
      fun j hj => (hlow (mem_map_of_mem (mem_range.mpr hj))).eq
    change SameCells _ _ ({ vm with stack := stack', pc := pc }.opCall machine operand.toNat).stack
    rw [opCall_withStack machine pc hsame]
    exact hcells.write fun _ _ => rfl
  | ldValueStack w =>
    have haddr := (hlow (.head _)).eq
    exact hcells.put (by rw [haddr])

theorem execute_withStack (machine : Machine) (pc : ℕ) (hsp : vm.sp = written.sp)
    (hcells : SameCells written.bytes vm.stack stack') (hreads : instr.ReadsWritten written) :
    (instr.execute machine { vm with stack := stack', pc := pc }).memory =
        (instr.execute machine vm).memory ∧
      (instr.execute machine { vm with stack := stack', pc := pc }).calls =
        (instr.execute machine vm).calls := by
  have hlow : ∀ {i n}, (i, n) ∈ instr.reads vm.sp → SameLow n (vm.stack i) (stack' i) :=
    fun hmem => hcells.low hreads (hsp ▸ hmem)
  obtain ⟨op, operand⟩ := instr
  cases op with
  | st w =>
    have haddr := (hlow (.head _)).eq
    have hvalue := (hlow (.tail _ (.head _))).store_eq vm.memory (vm.stack (vm.sp - 2)).toNat
    refine ⟨?_, rfl⟩
    change vm.memory.store (stack' (vm.sp - 2)).toNat w.bytes (stack' (vm.sp - 1)).toNat =
      vm.memory.store (vm.stack (vm.sp - 2)).toNat w.bytes (vm.stack (vm.sp - 1)).toNat
    rw [← haddr, hvalue]
  | syscall =>
    have hsame : ∀ j < operand.toNat + 1,
        vm.stack (vm.sp - 1 - (j : ℕ)) = stack' (vm.sp - 1 - (j : ℕ)) :=
      fun j hj => (hlow (mem_map_of_mem (mem_range.mpr hj))).eq
    have hcall := opCall_withStack machine pc hsame
    have hmemory := congrArg FinshVm.memory hcall
    have hcalls := congrArg FinshVm.calls hcall
    exact ⟨hmemory, hcalls⟩
  | noop | pop | binary | bitwise | ld | ldValue | ldValueStack =>
    simp only [Instr.execute, Opcode.execute, FinshVm.push, FinshVm.setCell, and_self]

/-- An instruction that reads written bytes only does the same on both machines. -/
theorem Agree.execute (hagree : Agree written vm vm') (hreads : instr.ReadsWritten written) :
    Agree (written.after instr) (instr.execute machine vm) (instr.execute machine vm') := by
  have hcells : SameCells _ (instr.execute machine vm).stack
      (instr.execute machine { vm with stack := vm'.stack, pc := vm'.pc }).stack :=
    hagree.cells.execute hagree.sp hreads
  have heffects := execute_withStack machine vm'.pc hagree.sp hagree.cells hreads
  rw [← hagree.eq_withStack] at hcells heffects
  constructor
  · rw [execute_sp, hagree.sp]
    rfl
  · rw [execute_sp, execute_sp, hagree.sp']
  · exact heffects.1
  · exact heffects.2
  · exact hcells

def Written.afterAll (written : Written) (code : List Instr) : Written :=
  code.foldl Written.after written

theorem Agree.execAll (hagree : Agree written vm vm') (hcode : ReadsWritten code written) :
    Agree (written.afterAll code) (execAll machine code vm) (execAll machine code vm') := by
  induction code generalizing written vm vm' with
  | nil => exact hagree
  | cons instr code ih =>
    obtain ⟨hinstr, hrest⟩ := hcode
    exact ih (hagree.execute hinstr) hrest

theorem ReadsWritten.take (hcode : ReadsWritten code written) (k : ℕ) :
    ReadsWritten (code.take k) written := by
  induction code generalizing written k with
  | nil => rwa [take_nil]
  | cons instr code ih =>
    cases k with
    | zero => exact trivial
    | succ k => exact ⟨hcode.1, ih hcode.2 k⟩

theorem bytes_le_after (written : Written) (instr : Instr) (i : ℤ) :
    written.bytes i ≤ (written.after instr).bytes i := by
  unfold Written.after
  cases instr.writes written.sp with
  | none => exact le_rfl
  | some cell =>
    change written.bytes i ≤
      update written.bytes cell.1 (max (written.bytes cell.1) cell.2) i
    by_cases hi : i = cell.1
    · subst hi
      rw [update_self]
      exact le_max_left _ _
    · rw [update_of_ne hi]

theorem bytes_le_afterAll (written : Written) (code : List Instr) (i : ℤ) :
    written.bytes i ≤ (written.afterAll code).bytes i := by
  induction code generalizing written with
  | nil => exact le_rfl
  | cons instr code ih => exact (bytes_le_after written instr i).trans (ih _)

theorem agree_start (memory : Memory) (calls : List CallRecord) :
    Agree Written.start (vmStart (clearBottom stack) memory calls)
      (vmStart (clearBottom stack') memory calls) := by
  refine ⟨rfl, rfl, rfl, rfl, ?_⟩
  intro i j hj
  by_cases hi : i = 0
  · subst hi
    rfl
  · simp [Written.start, hi] at hj

def KeepsRest (stack : ℤ → BitVec 32) (written : Written) (vm : FinshVm) : Prop :=
  ∀ i j, 8 * written.bytes i ≤ j → (vm.stack i).getLsbD j = (stack i).getLsbD j

section

variable (hsp : vm.sp = written.sp)
include hsp

theorem execute_writes (i : ℤ) {j : ℕ}
    (hj : ∀ n, instr.writes written.sp = some (i, n) → 8 * n ≤ j) :
    ((instr.execute machine vm).stack i).getLsbD j = (vm.stack i).getLsbD j := by
  have hupdate : ∀ {k n x}, instr.writes written.sp = some (k, n) →
      (∀ j, 8 * n ≤ j → x.getLsbD j = (vm.stack k).getLsbD j) →
      (update vm.stack k x i).getLsbD j = (vm.stack i).getLsbD j := by
    intro k n x hwrites hrest
    by_cases hi : i = k
    · subst hi
      rw [update_self]
      exact hrest j (hj n hwrites)
    · rw [update_of_ne hi]
  have hput : ∀ (w : Width) (x v : BitVec 32) (j : ℕ), 8 * w.bytes ≤ j →
      (cellPut w x v).getLsbD j = x.getLsbD j := by
    intro w x v j hj
    rw [getLsbD_cellPut, if_neg (by unfold Width.bits; omega)]
  obtain ⟨op, operand⟩ := instr
  rw [← hsp] at hupdate
  cases op with
  | noop | pop | st => rfl
  | binary op w | bitwise w | ld w | ldValue w | ldValueStack w =>
    exact hupdate rfl (hput w _ _)
  | syscall =>
    refine hupdate rfl fun j hj => ?_
    rw [BitVec.getLsbD_of_ge _ _ hj, BitVec.getLsbD_of_ge _ _ hj]

theorem KeepsRest.execute (hrest : KeepsRest stack written vm) :
    KeepsRest stack (written.after instr) (instr.execute machine vm) := by
  intro i j hj
  have hbefore := bytes_le_after written instr i
  rw [← hrest i j (by omega)]
  apply execute_writes hsp
  intro n hwrites
  have hafter : (written.after instr).bytes i = max (written.bytes i) n := by
    simp [Written.after, hwrites]
  omega

theorem execute_sp_after : (instr.execute machine vm).sp = (written.after instr).sp := by
  rw [execute_sp, hsp]
  rfl

theorem execAll_sp_afterAll : (execAll machine code vm).sp = (written.afterAll code).sp := by
  induction code generalizing written vm with
  | nil => exact hsp
  | cons instr code ih => exact ih (execute_sp_after hsp)

theorem KeepsRest.execAll (hrest : KeepsRest stack written vm) :
    KeepsRest stack (written.afterAll code) (execAll machine code vm) := by
  induction code generalizing written vm with
  | nil => exact hrest
  | cons instr code ih => exact ih (execute_sp_after hsp) (hrest.execute hsp)

end

theorem not_sameLow_of_unwritten {memory : Memory} {calls : List CallRecord} {i : ℤ} {b : ℕ}
    (hbottom : i ≠ 0) (hlt : (Written.start.afterAll code).bytes i < b) (hfour : b ≤ 4) :
    ¬SameLow b ((execAll machine code (vmStart (clearBottom fun _ => 0) memory calls)).stack i)
      ((execAll machine code
        (vmStart (clearBottom fun _ => BitVec.allOnes 32) memory calls)).stack i) := by
  have hrest : ∀ stack : ℤ → BitVec 32, KeepsRest (clearBottom stack) (Written.start.afterAll code)
      (Finsh.execAll machine code (vmStart (clearBottom stack) memory calls)) :=
    fun stack => KeepsRest.execAll rfl fun _ _ _ => rfl
  intro hsame
  have hbit := hsame (8 * (Written.start.afterAll code).bytes i) (by omega)
  rw [hrest _ i _ le_rfl, hrest _ i _ le_rfl, clearBottom, clearBottom,
    update_of_ne hbottom, update_of_ne hbottom,
    BitVec.getLsbD_allOnes] at hbit
  have hzero : (0 : BitVec 32).getLsbD (8 * (Written.start.afterAll code).bytes i) = false :=
    BitVec.getLsbD_zero
  exact absurd (by omega) (of_decide_eq_false (hbit.symm.trans hzero))

end Runs

section Lines

variable {env : FinshEnv} {machine : Machine} {shell : FinshShell} {n : ℕ} {line : List Char}
  {root : Tree} {s : FinshState} {text : List UInt8} {code : List Instr} {written : Written}

theorem readsWritten_iff_getElem : ReadsWritten code written ↔
      ∀ (k : ℕ) (instr : Instr), code[k]? = some instr →
        instr.ReadsWritten (written.afterAll (code.take k)) := by
  constructor
  · intro hcode
    induction code generalizing written with
    | nil => exact fun k instr hinstr => by cases hinstr
    | cons first code ih =>
      intro k instr hinstr
      cases k with
      | zero =>
        obtain rfl := some.inj hinstr
        exact hcode.1
      | succ k => exact ih hcode.2 k instr hinstr
  · intro hall
    induction code generalizing written with
    | nil => exact trivial
    | cons first code ih =>
      have hfirst := hall 0 first rfl
      have hrest : ReadsWritten code (written.after first) :=
        ih fun k instr hinstr => hall (k + 1) instr hinstr
      exact ⟨hfirst, hrest⟩

theorem bytes_le_four {instr : Instr} {sp i : ℤ} {b : ℕ} (hmem : (i, b) ∈ instr.reads sp) :
    b ≤ 4 := by
  have hwidth : ∀ w : Width, w.bytes ≤ 4 := fun w => by cases w <;> decide
  obtain ⟨op, operand⟩ := instr
  cases op with
  | noop | pop | ld | ldValue => cases hmem
  | binary op w | bitwise w | st w | ldValueStack w =>
    simp only [Instr.reads, mem_cons, not_mem_nil, or_false, Prod.mk.injEq] at hmem
    have hle := hwidth w
    omega
  | syscall =>
    obtain ⟨j, -, hcell⟩ := mem_map.mp hmem
    exact (Prod.mk.inj hcell).2.ge

theorem four_le_bottom (code : List Instr) : 4 ≤ (Written.start.afterAll code).bytes 0 :=
  bytes_le_afterAll Written.start code 0

theorem agree_take {memory : Memory} {calls : List CallRecord}
    (hcode : ReadsWritten code Written.start) (k : ℕ) (stack stack' : ℤ → BitVec 32) :
    Agree (Written.start.afterAll (code.take k))
      (execAll machine (code.take k) (vmStart (clearBottom stack) memory calls))
      (execAll machine (code.take k) (vmStart (clearBottom stack') memory calls)) :=
  (agree_start memory calls).execAll (hcode.take k)

/-- Every instruction reads the same from both stacks. -/
def SameReads (machine : Machine) (code : List Instr) (start start' : FinshVm) : Prop :=
  ∀ (k : ℕ) (instr : Instr), code[k]? = some instr →
    ∀ cell ∈ instr.reads (execAll machine (code.take k) start).sp,
      SameLow cell.2 ((execAll machine (code.take k) start).stack cell.1)
        ((execAll machine (code.take k) start').stack cell.1)

/-- Code reads the same over any two stacks exactly when it reads only bytes it has written. -/
theorem sameReads_iff {memory : Memory} {calls : List CallRecord} :
    (∀ stack stack', SameReads machine code (vmStart (clearBottom stack) memory calls)
        (vmStart (clearBottom stack') memory calls)) ↔ ReadsWritten code Written.start := by
  rw [readsWritten_iff_getElem]
  constructor
  · intro hsame k instr hinstr cell hmem
    by_contra hlt
    have hbottom : cell.1 ≠ 0 := by
      intro hzero
      have hle := four_le_bottom (code.take k)
      have hfour := bytes_le_four hmem
      rw [hzero] at hlt
      omega
    have hsp : (execAll machine (code.take k) (vmStart (clearBottom fun _ => 0) memory calls)).sp =
        (Written.start.afterAll (code.take k)).sp := execAll_sp_afterAll rfl
    exact not_sameLow_of_unwritten hbottom (not_le.mp hlt) (bytes_le_four hmem)
      (hsame _ _ k instr hinstr cell (hsp ▸ hmem))
  · intro hcode stack stack' k instr hinstr cell hmem
    have hagree : Agree _ (execAll machine (code.take k)
        (vmStart (clearBottom stack) memory calls)) _ :=
      agree_take (readsWritten_iff_getElem.mpr hcode) k stack stack'
    exact (hagree.cells cell.1).mono (hcode k instr hinstr cell (hagree.sp ▸ hmem))

/-- The two runs do the same after every round, as far as it can be seen from outside: the
contents of the memory, the calls and the value at the bottom of the stack. -/
def SameEffects (machine : Machine) (text : List UInt8) (start start' : FinshVm) : Prop :=
  ∀ k, ∃ vm vm', vmLoop machine text k start = some vm ∧ vmLoop machine text k start' = some vm' ∧
    vm'.sp = vm.sp ∧ vm'.memory = vm.memory ∧ vm'.calls = vm.calls ∧ vm'.stack 0 = vm.stack 0

theorem finshRunLine_of_accepted (shell : FinshShell) {vm : FinshVm}
    (hparse : finshParserRun env n line (shell.start line) = some (root, s))
    (herrno : s.errno = .ok)
    (hcompile : finshCompilerRun env s.vars root s.errno = some (text, .ok))
    (hrun : finshVmRun machine text (clearBottom shell.stack) s.memory shell.calls = some vm) :
    finshRunLine env machine n line shell = some (some (vm.stack 0),
        { vars := s.vars, heap := s.heap, memory := vm.memory, stack := vm.stack,
          calls := vm.calls }) := by
  simp only [finshRunLine, bind_eq_bind, hparse, bind_some, herrno, if_true]
  rw [herrno] at hcompile
  simp only [hcompile, bind_some, if_true, hrun]

/-- Lines that read only what they have written do the same on every stack. -/
theorem leftovers_unseen (hparse : finshParserRun env n line (shell.start line) = some (root, s))
    (herrno : s.errno = .ok)
    (hcompile : finshCompilerRun env s.vars root s.errno = some (text, .ok))
    (hwritten : ReadsWritten (compilerCode env s.vars root) Written.start)
    (stack stack' : ℤ → BitVec 32) :
    SameEffects machine text (vmStart (clearBottom stack) s.memory shell.calls)
        (vmStart (clearBottom stack') s.memory shell.calls) ∧ ∃ value after after',
        finshRunLine env machine n line { shell with stack := stack } = some (some value, after) ∧
          finshRunLine env machine n line { shell with stack := stack' } =
            some (some value, { after with stack := after' }) := by
  have heffects : SameEffects machine text (vmStart (clearBottom stack) s.memory shell.calls)
      (vmStart (clearBottom stack') s.memory shell.calls) := by
    intro k
    have hloop : ∀ stack, ∃ pc, vmLoop machine text k
        (vmStart (clearBottom stack) s.memory shell.calls) =
        some { execAll machine ((compilerCode env s.vars root).take k)
          (vmStart (clearBottom stack) s.memory shell.calls) with pc := pc } :=
      fun stack => vmLoop_of_accepted hparse herrno hcompile k
    obtain ⟨pc, hrun⟩ := hloop stack
    obtain ⟨pc', hrun'⟩ := hloop stack'
    have hagree : Agree _ (execAll machine ((compilerCode env s.vars root).take k)
        (vmStart (clearBottom stack) s.memory shell.calls)) _ :=
      agree_take hwritten k stack stack'
    have hbottom := ((hagree.cells 0).mono (four_le_bottom _)).eq
    exact ⟨_, _, hrun, hrun', hagree.sp', hagree.memory, hagree.calls, hbottom.symm⟩
  refine ⟨heffects, ?_⟩
  obtain ⟨vm, vm', hrun, hrun', -, hmemory, hcalls, hbottom⟩ := heffects FINSH_TEXT_MAX
  have hline := finshRunLine_of_accepted { shell with stack := stack } hparse herrno hcompile hrun
  have hline' :=
    finshRunLine_of_accepted { shell with stack := stack' } hparse herrno hcompile hrun'
  rw [hmemory, hcalls, hbottom] at hline'
  exact ⟨_, _, _, hline, hline'⟩

theorem leftovers_unseen_of_small_line :
    ∃ root s text, finshParserRun smallEnv 9 "hello(a, 2);".toList
        (smallShell.start "hello(a, 2);".toList) = some (root, s) ∧ s.errno = .ok ∧
      finshCompilerRun smallEnv s.vars root s.errno = some (text, .ok) ∧
      ReadsWritten (compilerCode smallEnv s.vars root) Written.start ∧
      SameEffects smallMachine text (vmStart (clearBottom fun _ => 0) s.memory smallShell.calls)
        (vmStart (clearBottom fun _ => 1000) s.memory smallShell.calls) := by
  have hline : (finshParserRun smallEnv 9 "hello(a, 2);".toList
      (smallShell.start "hello(a, 2);".toList)).map
      (fun r => (r.2.errno, (finshCompilerRun smallEnv r.2.vars r.1 r.2.errno).map Prod.snd,
        decide (ReadsWritten (compilerCode smallEnv r.2.vars r.1) Written.start))) =
      some (.ok, some .ok, true) := by decide +kernel
  obtain ⟨⟨root, s⟩, hparse, hresult⟩ := map_eq_some_iff.mp hline
  simp only [Prod.mk.injEq, decide_eq_true_eq] at hresult
  obtain ⟨herrno, hcompile, hwritten⟩ := hresult
  obtain ⟨⟨text, errno⟩, hcompile, rfl⟩ := map_eq_some_iff.mp hcompile
  exact ⟨root, s, text, hparse, herrno, hcompile, hwritten,
    (leftovers_unseen hparse herrno hcompile hwritten _ _).1⟩

def displayedAfter (i : Fin FINSH_VARIABLE_MAX) (first line : String) :
    Option (Option (BitVec 32) × FinshVar × BitVec 32) :=
  (finshRunLine smallEnv smallMachine 9 first.toList smallShell).bind fun before =>
    (finshRunLine smallEnv smallMachine 9 line.toList before.2).map fun after =>
      (after.1, before.2.vars i, loadField before.2.memory .byte (smallEnv.valueAddr (.var i)))

/-- `c` is 0 both times, but only the lowest byte of its cell is loaded: the others are those
of the constant that the first command has left there. -/
theorem leftovers_seen : displayedAfter 1 "1 + 1;" "1 + c;" = some (some 1, ⟨['c'], .char⟩, 0) ∧
      displayedAfter 1 "1 + 1000;" "1 + c;" = some (some 769, ⟨['c'], .char⟩, 0) := by
  constructor <;> decide +kernel

end Lines

end RtThread.Finsh
