import RtThread.FinshVm

/-!
# The machine executes the code of a line

The code has no jumps: after `k` rounds the machine has executed the first `k`
instructions, and the cleared rest of the text segment does nothing.
-/

namespace RtThread.Finsh

open List Option

variable {machine : Machine} {text : List UInt8} {vm : FinshVm} {instr : Instr}
  {code : List Instr}

def execAll (machine : Machine) (code : List Instr) (vm : FinshVm) : FinshVm :=
  code.foldl (fun vm instr => instr.execute machine vm) vm

theorem execAll_append (code code' : List Instr) :
    execAll machine (code ++ code') vm = execAll machine code' (execAll machine code vm) :=
  foldl_append

def Instr.Fits (instr : Instr) : Prop := instr.op = .syscall → instr.operand.toNat ≤ 16

theorem decodeOp_number (op : Opcode) : decodeOp op.number = some op := by
  cases op with
  | noop | pop | syscall => rfl
  | binary op w => cases op <;> cases w <;> decide
  | bitwise w | ld w | ldValue w | st w | ldValueStack w => cases w <;> decide

theorem Opcode.number_lt (op : Opcode) : op.number < 256 := by
  cases op with
  | noop | pop | syscall => decide
  | binary op w => cases op <;> cases w <;> decide
  | bitwise w | ld w | ldValue w | st w | ldValueStack w => cases w <;> decide

theorem length_littleEndian (n value : ℕ) : (littleEndian n value).length = n := by
  induction n generalizing value with
  | zero => rfl
  | succ n ih => simp [littleEndian, ih]

theorem Instr.length_encode (instr : Instr) : instr.encode.length = 1 + instr.op.operandBytes := by
  rw [Instr.encode, length_cons, length_littleEndian, Nat.add_comm]

theorem fetch_littleEndian {pc n value : ℕ} {rest : List UInt8}
    (htext : text.drop pc = littleEndian n value ++ rest) : fetch text pc n = value % 256 ^ n := by
  induction n generalizing pc value with
  | zero => simp [fetch, Nat.mod_one]
  | succ n ih =>
    have hhead : text[pc]? = some (UInt8.ofNat value) := by
      rw [← Nat.add_zero pc, ← getElem?_drop, htext]
      rfl
    have htail : text.drop (pc + 1) = littleEndian n (value / 256) ++ rest := by
      rw [← drop_drop, htext]
      rfl
    have hbyte : (UInt8.ofNat value).toNat = value % 256 := UInt8.toNat_ofNat'
    rw [fetch, hhead, ih htail, getD_some, hbyte, pow_succ, Nat.mul_comm (256 ^ n),
      Nat.mod_mul]

theorem cellGet_mod {w : Width} {value : BitVec 32} :
    cellGet w (BitVec.ofNat 32 (value.toNat % 256 ^ w.bytes)) = cellGet w value := by
  apply BitVec.eq_of_toNat_eq
  cases w
  · simp [cellGet, Width.bits, Width.bytes]
  · simp [cellGet, Width.bits, Width.bytes]
  · simp [cellGet, Width.bits, Width.bytes, value.isLt]

theorem execute_fetched (hfits : instr.Fits) : instr.op.execute machine
        (BitVec.ofNat 32 (instr.operand.toNat % 256 ^ instr.op.operandBytes)) vm =
      instr.execute machine vm := by
  obtain ⟨op, operand⟩ := instr
  cases op with
  | ld w =>
    simp only [Instr.execute, Opcode.execute, FinshVm.push, cellPut, Opcode.operandBytes,
      cellGet_mod]
  | ldValue w =>
    have hfull : operand.toNat % 256 ^ 4 = operand.toNat := Nat.mod_eq_of_lt operand.isLt
    simp only [Instr.execute, Opcode.operandBytes, hfull, BitVec.ofNat_toNat, BitVec.setWidth_eq]
  | syscall =>
    have hsmall : operand.toNat % 256 ^ 1 = operand.toNat :=
      Nat.mod_eq_of_lt (lt_of_le_of_lt (hfits rfl) (by decide))
    simp only [Instr.execute, Opcode.operandBytes, hsmall, BitVec.ofNat_toNat, BitVec.setWidth_eq]
  | noop | binary | bitwise | st | pop | ldValueStack => rfl

theorem step_of_encode {rest : List UInt8}
    (htext : text.drop vm.pc = instr.encode ++ rest) (hfits : instr.Fits) : vm.step machine text =
      some { instr.execute machine vm with pc := vm.pc + instr.encode.length } := by
  have hop : text[vm.pc]? = some (UInt8.ofNat instr.op.number) := by
    rw [← Nat.add_zero vm.pc, ← getElem?_drop, htext]
    rfl
  have hnumber : (UInt8.ofNat instr.op.number).toNat = instr.op.number :=
    UInt8.toNat_ofNat_of_lt instr.op.number_lt
  have hoperand : fetch text (vm.pc + 1) instr.op.operandBytes =
      instr.operand.toNat % 256 ^ instr.op.operandBytes := by
    have hbehind : text.drop (vm.pc + 1) =
        littleEndian instr.op.operandBytes instr.operand.toNat ++ rest := by
      rw [← drop_drop, htext]
      rfl
    exact fetch_littleEndian hbehind
  have hroom : ¬(instr.op = .syscall ∧ 16 <
      (BitVec.ofNat 32 (instr.operand.toNat % 256 ^ instr.op.operandBytes)).toNat) := by
    rintro ⟨hsyscall, hmany⟩
    have hle := hfits hsyscall
    rw [BitVec.toNat_ofNat] at hmany
    have hmod' := Nat.mod_le instr.operand.toNat (256 ^ instr.op.operandBytes)
    omega
  simp only [FinshVm.step, bind_eq_bind, hop, bind_some, hnumber, decodeOp_number,
    hoperand, if_neg hroom, execute_fetched hfits, Instr.length_encode, Nat.add_assoc]

theorem execute_withPc (pc : ℕ) :
    instr.execute machine { vm with pc := pc } = { instr.execute machine vm with pc := pc } := by
  obtain ⟨op, operand⟩ := instr
  cases op <;> rfl

theorem encodeAll_append (code code' : List Instr) :
    encodeAll (code ++ code') = encodeAll code ++ encodeAll code' :=
  flatMap_append

def textOf (code : List Instr) : List UInt8 := finshCompilerRun.writeText (encodeAll code)

def pcAfter (code : List Instr) (k : ℕ) : ℕ :=
  (encodeAll (code.take k)).length + (k - code.length)

theorem pcAfter_succ_of_lt {k : ℕ} (hk : k < code.length) :
    pcAfter code (k + 1) = pcAfter code k + (code[k]).encode.length := by
  have htake : code.take (k + 1) = code.take k ++ [code[k]] := (take_append_getElem hk).symm
  rw [pcAfter, htake, encodeAll_append, length_append, pcAfter]
  simp only [encodeAll, flatMap_cons, flatMap_nil, append_nil]
  omega

theorem length_le_encodeAll (code : List Instr) : code.length ≤ (encodeAll code).length := by
  induction code with
  | nil => exact le_rfl
  | cons instr code ih =>
    have hlength : (encodeAll (instr :: code)).length =
        instr.encode.length + (encodeAll code).length := length_append
    rw [hlength, length_cons, instr.length_encode]
    omega

theorem length_encodeAll_take (code : List Instr) (k : ℕ) :
    (encodeAll (code.take k)).length ≤ (encodeAll code).length := by
  conv_rhs => rw [← take_append_drop k code]
  rw [encodeAll_append, length_append]
  exact Nat.le_add_right _ _

theorem step_textOf {k : ℕ} (hfits : ∀ instr ∈ code, instr.Fits) (hpc : vm.pc = pcAfter code k)
    (hroom : vm.pc < FINSH_TEXT_MAX) : vm.step machine (textOf code) =
      some { execAll machine (code.drop k |>.take 1) vm with pc := pcAfter code (k + 1) } := by
  by_cases hk : k < code.length
  · have hcode : encodeAll code =
        encodeAll (code.take k) ++ ((code[k]).encode ++ encodeAll (code.drop (k + 1))) := by
      conv_lhs => rw [← take_append_drop k code, drop_eq_getElem_cons hk]
      rw [encodeAll_append]
      rfl
    have hstart : vm.pc = (encodeAll (code.take k)).length := by
      rw [hpc, pcAfter]
      lia
    have htext : (textOf code).drop vm.pc = (code[k]).encode ++ (encodeAll (code.drop (k + 1)) ++
          List.replicate (FINSH_TEXT_MAX - (encodeAll code).length) 0) := by
      unfold textOf finshCompilerRun.writeText
      generalize List.replicate (FINSH_TEXT_MAX - (encodeAll code).length) (0 : UInt8) = zeros
      rw [hstart, hcode, append_assoc, drop_left, append_assoc]
    rw [step_of_encode htext (hfits _ (getElem_mem hk)), drop_eq_getElem_cons hk,
      pcAfter_succ_of_lt hk, hpc]
    rfl
  · have hnone : (code.drop k).take 1 = [] := by
      rw [drop_eq_nil_of_le (not_lt.mp hk)]
      rfl
    have htake : code.take k = code := take_of_length_le (not_lt.mp hk)
    have htake' : code.take (k + 1) = code := take_of_length_le (by lia)
    have hafter : vm.pc = (encodeAll code).length + (k - code.length) := by
      rw [hpc, pcAfter, htake]
    have hzero : (textOf code).drop vm.pc = Instr.encode ⟨.noop, 0⟩ ++
        List.replicate (FINSH_TEXT_MAX - (vm.pc + 1)) 0 := by
      have hrest : FINSH_TEXT_MAX - (encodeAll code).length - (k - code.length) =
          FINSH_TEXT_MAX - (vm.pc + 1) + 1 := by lia
      rw [textOf, finshCompilerRun.writeText, hafter, drop_append, drop_replicate,
        ← hafter]
      rw [drop_eq_nil_of_le (by lia), nil_append, hafter, Nat.add_sub_cancel_left,
        hrest, replicate_succ, hafter]
      rfl
    rw [step_of_encode hzero (fun h => by cases h), hnone, pcAfter, htake', hafter]
    have hnext : k + 1 - code.length = k - code.length + 1 := by lia
    rw [hnext]
    rfl

theorem execAll_withPc (code : List Instr) (pc : ℕ) :
    execAll machine code { vm with pc := pc } = { execAll machine code vm with pc := pc } := by
  induction code generalizing vm with
  | nil => rfl
  | cons instr code ih =>
    change execAll machine code (instr.execute machine { vm with pc := pc }) = _
    rw [execute_withPc, ih]
    rfl

theorem vmLoop_succ (k : ℕ) :
    vmLoop machine text (k + 1) vm = (vmLoop machine text k vm).bind fun vm =>
      if vm.pc < FINSH_TEXT_MAX then vm.step machine text else some vm := by
  induction k generalizing vm with
  | zero =>
    simp only [vmLoop, bind_some]
    split
    · cases vm.step machine text <;> rfl
    · rfl
  | succ k ih =>
    rw [vmLoop]
    conv_rhs => rw [vmLoop]
    split
    · cases hstep : vm.step machine text with
      | none => rfl
      | some next => exact ih
    · rename_i hstop
      rw [bind_some, if_neg hstop]

theorem vmLoop_textOf {stack : ℤ → BitVec 32} {memory : Memory} {calls : List CallRecord}
    (hlength : (encodeAll code).length ≤ FINSH_TEXT_MAX)
    (hfits : ∀ instr ∈ code, instr.Fits) (k : ℕ) :
    ∃ pc, vmLoop machine (textOf code) k (vmStart stack memory calls) =
        some { execAll machine (code.take k) (vmStart stack memory calls) with pc := pc } ∧
      (pc = pcAfter code k ∨ FINSH_TEXT_MAX ≤ pc ∧ code.length ≤ k) := by
  induction k with
  | zero => exact ⟨0, rfl, .inl (by simp [pcAfter, encodeAll])⟩
  | succ k ih =>
    obtain ⟨pc, hloop, hpc⟩ := ih
    rw [vmLoop_succ, hloop, bind_some]
    split
    · rename_i hroom
      have hafter : pc = pcAfter code k := hpc.resolve_right fun hend => by
        exact absurd hroom (not_lt.mpr hend.1)
      refine ⟨pcAfter code (k + 1), ?_, .inl rfl⟩
      rw [step_textOf hfits hafter hroom, execAll_withPc, ← execAll_append, ← take_add]
    · rename_i hroom
      have hend : code.length ≤ k := by
        obtain rfl | hend := hpc
        · by_contra hlt
          have hnext := pcAfter_succ_of_lt (not_le.mp hlt)
          have hle := length_encodeAll_take code (k + 1)
          have hpos := (code.get ⟨k, not_le.mp hlt⟩).length_encode
          simp only [get_eq_getElem] at hpos
          simp only [pcAfter] at hnext hroom
          omega
        · exact hend.2
      refine ⟨pc, ?_, .inr ⟨not_lt.mp hroom, by omega⟩⟩
      have htake : code.take (k + 1) = code := take_of_length_le (by omega)
      rw [htake, take_of_length_le hend]

end RtThread.Finsh
