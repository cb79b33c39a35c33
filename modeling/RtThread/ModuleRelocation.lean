import RtThread.MemoryRoutines

/-!
# Relocation of a module

`rt_module_arm_relocate`, compared with how the processor reads what it patches: words, ARM branches
with 24 bits of displacement, and Thumb branches over two halfwords.
-/

namespace RtThread.Module

open BitVec

open Kservice (loadWord storeWord)

@[match_pattern] def R_ARM_NONE : ℕ := 0
@[match_pattern] def R_ARM_PC24 : ℕ := 1
@[match_pattern] def R_ARM_ABS32 : ℕ := 2
@[match_pattern] def R_ARM_REL32 : ℕ := 3
@[match_pattern] def R_ARM_THM_CALL : ℕ := 10
@[match_pattern] def R_ARM_GLOB_DAT : ℕ := 21
@[match_pattern] def R_ARM_JUMP_SLOT : ℕ := 22
@[match_pattern] def R_ARM_RELATIVE : ℕ := 23
@[match_pattern] def R_ARM_PLT32 : ℕ := 27
@[match_pattern] def R_ARM_CALL : ℕ := 28
@[match_pattern] def R_ARM_JUMP24 : ℕ := 29
@[match_pattern] def R_ARM_THM_JUMP24 : ℕ := 30
@[match_pattern] def R_ARM_V4BX : ℕ := 40

def loadHalf (m : Kservice.Memory) (addr : ℕ) : BitVec 16 :=
  BitVec.ofNat 16 ((m addr).toNat + 256 * (m (addr + 1)).toNat)

def storeHalf (addr : ℕ) (value : BitVec 16) (m : Kservice.Memory) : Kservice.Memory := fun x =>
  if addr ≤ x ∧ x < addr + 2 then (value >>> (8 * (x - addr))).setWidth 8 else m x

def branchAddend (word : BitVec 32) : BitVec 32 :=
  let addend := word &&& 0x00ffffff#32
  let addend := if addend &&& 0x00800000#32 ≠ 0 then addend ||| 0xff000000#32 else addend
  addend <<< 2

def branchWord (word tmp : BitVec 32) : BitVec 32 :=
  (word &&& 0xff000000#32) ||| ((tmp >>> 2) &&& 0x00ffffff#32)

/-- `offset` from the two halfwords, with `upper` and `lower` as they are read. -/
def thumbAddend (upper lower : BitVec 32) : BitVec 32 :=
  let sign := (upper >>> 10) &&& 1#32
  let j1 := (lower >>> 13) &&& 1#32
  let j2 := (lower >>> 11) &&& 1#32
  let offset := (sign <<< 24) ||| ((~~~(j1 ^^^ sign) &&& 1#32) <<< 23) |||
    ((~~~(j2 ^^^ sign) &&& 1#32) <<< 22) ||| ((upper &&& 0x03ff#32) <<< 12) |||
    ((lower &&& 0x07ff#32) <<< 1)
  if offset &&& 0x01000000#32 ≠ 0 then offset - 0x02000000#32 else offset

def thumbUpper (upper offset : BitVec 32) : BitVec 16 :=
  let sign := (offset.sshiftRight 24) &&& 1#32
  ((upper &&& 0xf800#32) ||| (sign <<< 10) ||| ((offset.sshiftRight 12) &&& 0x03ff#32)).setWidth 16

def thumbLower (lower offset : BitVec 32) : BitVec 16 :=
  let sign := (offset.sshiftRight 24) &&& 1#32
  let j1 := sign ^^^ (~~~(offset.sshiftRight 23) &&& 1#32)
  let j2 := sign ^^^ (~~~(offset.sshiftRight 22) &&& 1#32)
  ((lower &&& 0xd000#32) ||| (j1 <<< 13) ||| (j2 <<< 11) |||
    ((offset.sshiftRight 1) &&& 0x07ff#32)).setWidth 16

/-- The case of `R_ARM_THM_CALL` and `R_ARM_THM_JUMP24`.  `where` points to words, so that
`where + 2` is eight bytes on. -/
def relocateThumb (m : Kservice.Memory) (place : ℕ) (symVal : BitVec 32) : ℤ × Kservice.Memory :=
  let upper := (loadHalf m place).setWidth 32
  let lower := (loadHalf m (place + 2)).setWidth 32
  let offset := thumbAddend upper lower + (symVal - BitVec.ofNat 32 place)
  if offset &&& 1#32 = 0 ∨ offset.toInt ≤ -0x01000000 ∨ 0x01000000 ≤ offset.toInt then (-1, m)
  else
    (0, storeHalf (place + 2 * 4) (thumbLower lower offset)
      (storeHalf place (thumbUpper upper offset) m))

/-- `rt_module_arm_relocate` at `where = place` -/
def rtModuleArmRelocate (m : Kservice.Memory) (place type : ℕ) (symVal : BitVec 32) : ℤ × Kservice.Memory :=
  let word := loadWord m place
  let patch := fun value => (0, storeWord place value m)
  match type with
  | R_ARM_NONE => (0, m)
  | R_ARM_ABS32 => patch (word + symVal)
  | R_ARM_PC24 | R_ARM_PLT32 | R_ARM_CALL | R_ARM_JUMP24 =>
    patch (branchWord word (symVal - BitVec.ofNat 32 place + branchAddend word))
  | R_ARM_REL32 => patch (word + (symVal - BitVec.ofNat 32 place))
  | R_ARM_V4BX => patch ((word &&& 0xf000000f#32) ||| 0x01a0f000#32)
  | R_ARM_GLOB_DAT | R_ARM_JUMP_SLOT => patch symVal
  | R_ARM_RELATIVE => patch (symVal + word)
  | R_ARM_THM_CALL | R_ARM_THM_JUMP24 => relocateThumb m place symVal
  | _ => (-1, m)

/-- `SignExtend(imm24:'00')` -/
def armDisplacement (word : BitVec 32) : BitVec 32 :=
  (word.extractLsb' 0 24 ++ 0#2).signExtend 32

/-- `SignExtend(S:I1:I2:imm10:imm11:'0')`, where `I1` and `I2` are `NOT(J1 EOR S)` and
`NOT(J2 EOR S)`. -/
def thumbDisplacement (upper lower : BitVec 16) : BitVec 32 :=
  let s := upper.extractLsb' 10 1
  let i1 := ~~~(lower.extractLsb' 13 1 ^^^ s)
  let i2 := ~~~(lower.extractLsb' 11 1 ^^^ s)
  (s ++ i1 ++ i2 ++ upper.extractLsb' 0 10 ++ lower.extractLsb' 0 11 ++ 0#1).signExtend 32

theorem thumbDisplacement_bit (upper lower : BitVec 16) :
    ∀ i < 32, (thumbDisplacement upper lower).getLsbD i = if i = 0 then false
      else if i < 12 then lower.getLsbD (i - 1)
      else if i < 22 then upper.getLsbD (i - 12)
      else if i = 22 then !(lower.getLsbD 11 ^^ upper.getLsbD 10)
      else if i = 23 then !(lower.getLsbD 13 ^^ upper.getLsbD 10)
      else upper.getLsbD 10 := by
  intro i hi
  simp only [thumbDisplacement, getLsbD_signExtend, msb_eq_getLsbD_last,
    getLsbD_append, getLsbD_extractLsb', getLsbD_not, getLsbD_xor,
    getLsbD_ofNat]
  interval_cases i <;> simp

theorem and_bit_ne_zero (w : BitVec 32) {i : ℕ} (hi : i < 32) :
    w &&& BitVec.twoPow 32 i ≠ 0 ↔ w.getLsbD i = true := by
  have hpow : twoPow 32 i ≠ 0#32 := by
    intro h
    have hbit := congrArg (fun v => v.getLsbD i) h
    simp [hi] at hbit
  rw [and_twoPow]
  split_ifs with h
  · simp [h, hpow]
  · simp [h]

theorem thumbAddend_eq (upper lower : BitVec 16) :
    thumbAddend (upper.setWidth 32) (lower.setWidth 32) = thumbDisplacement upper lower := by
  have hbits := thumbDisplacement_bit upper lower
  have hextend : ∀ w : BitVec 32, (∀ i < 25, w.getLsbD i = (thumbDisplacement upper lower).getLsbD i) →
      (∀ i < 32, 25 ≤ i → w.getLsbD i = false) →
      (if w &&& 0x01000000#32 ≠ 0 then w - 0x02000000#32 else w) = thumbDisplacement upper lower := by
    intro w hlow hhigh
    have hsign : w.getLsbD 24 = upper.getLsbD 10 := by
      rw [hlow 24 (by decide), hbits 24 (by decide)]
      rfl
    have hmask : ∀ i < 32, (0xfe000000#32).getLsbD i = decide (25 ≤ i) := by decide
    have hclear : w &&& 0xfe000000#32 = 0 := by
      apply eq_of_getLsbD_eq
      intro i hi
      rw [getLsbD_and, hmask i hi, show getLsbD 0 i = false from getLsbD_zero]
      by_cases hge : 25 ≤ i
      · rw [hhigh i hi hge, Bool.false_and]
      · rw [decide_eq_false hge, Bool.and_false]
    have hsub : w - 0x02000000#32 = w ||| 0xfe000000#32 := by
      rw [sub_eq_add_neg, ← add_eq_or_of_and_eq_zero _ _ hclear]
      rfl
    apply eq_of_getLsbD_eq
    intro i hi
    rw [hsub, show (0x01000000#32) = twoPow 32 24 from rfl,
      if_congr (and_bit_ne_zero w (by decide)) rfl rfl, hsign]
    by_cases hge : 25 ≤ i
    · have htop : (thumbDisplacement upper lower).getLsbD i = upper.getLsbD 10 := by
        rw [hbits i hi, if_neg (by omega), if_neg (by omega), if_neg (by omega), if_neg (by omega),
          if_neg (by omega)]
      rw [htop]
      split_ifs with h
      · rw [getLsbD_or, hmask i hi, decide_eq_true hge, Bool.or_true, h]
      · rw [hhigh i hi hge, Bool.eq_false_of_not_eq_true h]
    · split_ifs
      · rw [getLsbD_or, hmask i hi, decide_eq_false hge, Bool.or_false, hlow i (by omega)]
      · exact hlow i (by omega)
  refine hextend _ (fun i hi => ?_) (fun i hi hge => ?_)
  · rw [hbits i (by omega)]
    interval_cases i <;> simp
  · interval_cases i <;> simp

theorem thumbUpper_bit (upper : BitVec 16) (d : BitVec 32) :
    ∀ i < 16, (thumbUpper (upper.setWidth 32) d).getLsbD i =
      if i < 10 then d.getLsbD (i + 12) else if i = 10 then d.getLsbD 24 else upper.getLsbD i := by
  intro i hi
  simp only [thumbUpper]
  interval_cases i <;> simp [getElem_sshiftRight]

theorem thumbLower_bit (lower : BitVec 16) (d : BitVec 32) :
    ∀ i < 16, (thumbLower (lower.setWidth 32) d).getLsbD i = if i < 11 then d.getLsbD (i + 1)
      else if i = 11 then d.getLsbD 24 ^^ !d.getLsbD 22
      else if i = 13 then d.getLsbD 24 ^^ !d.getLsbD 23
      else lower.getLsbD i := by
  intro i hi
  simp only [thumbLower]
  interval_cases i <;> simp [getElem_sshiftRight]

theorem armDisplacement_bit (word : BitVec 32) : ∀ i < 32, (armDisplacement word).getLsbD i =
      if i < 2 then false else if i < 26 then word.getLsbD (i - 2) else word.getLsbD 23 := by
  intro i hi
  simp only [armDisplacement, getLsbD_signExtend, msb_eq_getLsbD_last,
    getLsbD_append, getLsbD_extractLsb', getLsbD_ofNat]
  interval_cases i <;> simp

theorem branchAddend_eq (word : BitVec 32) : branchAddend word = armDisplacement word := by
  apply eq_of_getLsbD_eq
  intro i hi
  rw [armDisplacement_bit word i hi, branchAddend]
  simp only [show (0x00800000#32) = twoPow 32 23 from rfl,
    if_congr (and_bit_ne_zero (word &&& 0x00ffffff#32) (show 23 < 32 by decide)) rfl rfl]
  have hsign : (word &&& 0x00ffffff#32).getLsbD 23 = word.getLsbD 23 := by simp
  rw [hsign]
  cases h : word.getLsbD 23 <;> interval_cases i <;> simp_all

theorem sign_bits {d : BitVec 32} {n : ℕ} (hlow : -2 ^ n ≤ d.toInt) (hhigh : d.toInt < 2 ^ n) :
    ∀ i < 32, n ≤ i → d.getLsbD i = d.msb := by
  intro i hi hni
  have hpow : 2 ^ n ≤ 2 ^ i := Nat.pow_le_pow_right (by decide) hni
  have hcast : ((2 : ℤ) ^ n) = ((2 ^ n : ℕ) : ℤ) := by push_cast; rfl
  rw [hcast] at hlow hhigh
  rw [toInt_eq_msb_cond] at hlow hhigh
  cases hmsb : d.msb
  · rw [hmsb, if_neg (by decide)] at hhigh
    exact Nat.testBit_lt_two_pow (by omega)
  · rw [hmsb, if_pos rfl] at hlow
    have hnot : (~~~d).getLsbD i = false := by
      refine Nat.testBit_lt_two_pow ?_
      rw [toNat_not]
      omega
    simpa [hi] using hnot

theorem thumb_decode (upper lower : BitVec 16) {d : BitVec 32} (hlow : -2 ^ 24 ≤ d.toInt)
    (hhigh : d.toInt < 2 ^ 24) :
    thumbDisplacement (thumbUpper (upper.setWidth 32) d) (thumbLower (lower.setWidth 32) d) =
      d &&& 0xfffffffe#32 := by
  have hsign := sign_bits hlow hhigh
  have hmask : ∀ i < 32, (0xfffffffe#32).getLsbD i = decide (1 ≤ i) := by decide
  apply eq_of_getLsbD_eq
  intro i hi
  rw [thumbDisplacement_bit _ _ i hi, getLsbD_and, hmask i hi]
  have hs : (thumbUpper (upper.setWidth 32) d).getLsbD 10 = d.getLsbD 24 :=
    thumbUpper_bit upper d 10 (by decide)
  have hj1 : (thumbLower (lower.setWidth 32) d).getLsbD 13 = (d.getLsbD 24 ^^ !d.getLsbD 23) :=
    thumbLower_bit lower d 13 (by decide)
  have hj2 : (thumbLower (lower.setWidth 32) d).getLsbD 11 = (d.getLsbD 24 ^^ !d.getLsbD 22) :=
    thumbLower_bit lower d 11 (by decide)
  rw [hs, hj1, hj2]
  split_ifs with hzero himm11 himm10 hi2 hi1
  · simp [hzero]
  · rw [thumbLower_bit _ _ _ (by omega), if_pos (by omega), Nat.sub_add_cancel (by omega),
      decide_eq_true (by omega), Bool.and_true]
  · rw [thumbUpper_bit _ _ _ (by omega), if_pos (by omega), Nat.sub_add_cancel (by omega),
      decide_eq_true (by omega), Bool.and_true]
  · rw [hi2]
    cases d.getLsbD 24 <;> cases d.getLsbD 22 <;> rfl
  · rw [hi1]
    cases d.getLsbD 24 <;> cases d.getLsbD 23 <;> rfl
  · rw [hsign i hi (by omega), hsign 24 (by decide) le_rfl, decide_eq_true (by omega),
      Bool.and_true]

theorem arm_decode (word : BitVec 32) {d : BitVec 32} (haligned : d &&& 3#32 = 0)
    (hlow : -2 ^ 25 ≤ d.toInt) (hhigh : d.toInt < 2 ^ 25) :
    armDisplacement (branchWord word d) = d := by
  have hsign := sign_bits hlow hhigh
  have hfield : ∀ i < 24, (branchWord word d).getLsbD i = d.getLsbD (i + 2) := by
    intro i hi
    unfold branchWord
    interval_cases i <;> simp
  have hmask : ∀ i < 2, (3#32).getLsbD i = true := by decide
  apply eq_of_getLsbD_eq
  intro i hi
  rw [armDisplacement_bit _ i hi]
  split_ifs with hzero hlt
  · have hbit := congrArg (fun v => v.getLsbD i) haligned
    simp only [getLsbD_and, hmask i hzero, Bool.and_true] at hbit
    rw [hbit]
    exact getLsbD_zero.symm
  · rw [hfield _ (by omega), Nat.sub_add_cancel (by omega)]
  · rw [hfield 23 (by decide), hsign i hi (by omega), hsign 25 (by decide) le_rfl]

/-- The lower halfwords of the branches by `a` and by `d` have the same fields. -/
def SameLower (a d : BitVec 32) : Prop :=
  (∀ i < 11, d.getLsbD (i + 1) = a.getLsbD (i + 1)) ∧
    (d.getLsbD 24 ^^ d.getLsbD 22) = (a.getLsbD 24 ^^ a.getLsbD 22) ∧
    (d.getLsbD 24 ^^ d.getLsbD 23) = (a.getLsbD 24 ^^ a.getLsbD 23)

theorem sameLower_iff (upper lower : BitVec 16) (d : BitVec 32) :
    SameLower (thumbDisplacement upper lower) d ↔ (∀ i < 11, d.getLsbD (i + 1) = lower.getLsbD i) ∧
      (d.getLsbD 24 ^^ d.getLsbD 22) = !lower.getLsbD 11 ∧
      (d.getLsbD 24 ^^ d.getLsbD 23) = !lower.getLsbD 13 := by
  have ha := thumbDisplacement_bit upper lower
  have hlow : ∀ i < 11, (thumbDisplacement upper lower).getLsbD (i + 1) = lower.getLsbD i := by
    intro i hi
    rw [ha _ (by omega), if_neg (by omega), if_pos (by omega), Nat.add_sub_cancel]
  have h22 : (thumbDisplacement upper lower).getLsbD 22 =
      !(lower.getLsbD 11 ^^ upper.getLsbD 10) := ha 22 (by decide)
  have h23 : (thumbDisplacement upper lower).getLsbD 23 =
      !(lower.getLsbD 13 ^^ upper.getLsbD 10) := ha 23 (by decide)
  have h24 : (thumbDisplacement upper lower).getLsbD 24 = upper.getLsbD 10 := ha 24 (by decide)
  have hj2 : ((thumbDisplacement upper lower).getLsbD 24 ^^
      (thumbDisplacement upper lower).getLsbD 22) = !lower.getLsbD 11 := by
    rw [h24, h22]
    cases upper.getLsbD 10 <;> cases lower.getLsbD 11 <;> rfl
  have hj1 : ((thumbDisplacement upper lower).getLsbD 24 ^^
      (thumbDisplacement upper lower).getLsbD 23) = !lower.getLsbD 13 := by
    rw [h24, h23]
    cases upper.getLsbD 10 <;> cases lower.getLsbD 13 <;> rfl
  rw [SameLower, hj2, hj1]
  exact and_congr_left' (forall₂_congr fun i hi => by rw [hlow i hi])

theorem thumbLower_of_same {upper lower : BitVec 16} {d : BitVec 32}
    (h : SameLower (thumbDisplacement upper lower) d) :
    thumbLower (lower.setWidth 32) d = lower := by
  obtain ⟨himm, hj2, hj1⟩ := (sameLower_iff upper lower d).1 h
  apply eq_of_getLsbD_eq
  intro i hi
  rw [thumbLower_bit _ _ i hi]
  split_ifs with himm11 hi2 hi1
  · exact himm i himm11
  · rw [hi2, ← Bool.not_not (lower.getLsbD 11), ← hj2]
    cases d.getLsbD 24 <;> cases d.getLsbD 22 <;> rfl
  · rw [hi1, ← Bool.not_not (lower.getLsbD 13), ← hj1]
    cases d.getLsbD 24 <;> cases d.getLsbD 23 <;> rfl
  · rfl

theorem thumb_unchanged_iff (upper lower : BitVec 16) {d : BitVec 32} (hlow : -2 ^ 24 ≤ d.toInt)
    (hhigh : d.toInt < 2 ^ 24) :
    thumbDisplacement (thumbUpper (upper.setWidth 32) d) lower = d &&& 0xfffffffe#32 ↔
      SameLower (thumbDisplacement upper lower) d := by
  constructor
  · intro h
    have hbits := thumbDisplacement_bit (thumbUpper (upper.setWidth 32) d) lower
    have hs : (thumbUpper (upper.setWidth 32) d).getLsbD 10 = d.getLsbD 24 :=
      thumbUpper_bit upper d 10 (by decide)
    have hmask : ∀ i < 32, (0xfffffffe#32).getLsbD i = decide (1 ≤ i) := by decide
    rw [h, hs] at hbits
    simp only [getLsbD_and] at hbits
    rw [sameLower_iff]
    refine ⟨fun i hi => ?_, ?_, ?_⟩
    · have hbit := hbits (i + 1) (by omega)
      rwa [hmask _ (by omega), decide_eq_true (by omega), Bool.and_true, if_neg (by omega),
        if_pos (by omega), Nat.add_sub_cancel] at hbit
    · have hbit := hbits 22 (by decide)
      rw [hmask 22 (by decide)] at hbit
      simp only [Nat.reduceLeDiff, decide_true, Bool.and_true] at hbit
      rw [hbit]
      cases d.getLsbD 24 <;> cases lower.getLsbD 11 <;> rfl
    · have hbit := hbits 23 (by decide)
      rw [hmask 23 (by decide)] at hbit
      simp only [Nat.reduceLeDiff, decide_true, Bool.and_true] at hbit
      rw [hbit]
      cases d.getLsbD 24 <;> cases lower.getLsbD 13 <;> rfl
  · intro h
    have hdecode := thumb_decode upper lower hlow hhigh
    rwa [thumbLower_of_same h] at hdecode

theorem loadWord_storeWord (m : Kservice.Memory) (addr : ℕ) (value : BitVec 32) :
    loadWord (storeWord addr value m) addr = value := by
  apply eq_of_toNat_eq
  simp only [loadWord, storeWord, toNat_ofNat]
  simp [Nat.shiftRight_eq_div_pow]
  omega

theorem loadHalf_storeHalf (m : Kservice.Memory) (addr : ℕ) (value : BitVec 16) :
    loadHalf (storeHalf addr value m) addr = value := by
  apply eq_of_toNat_eq
  simp only [loadHalf, storeHalf, toNat_ofNat]
  simp [Nat.shiftRight_eq_div_pow]
  omega

theorem loadHalf_congr {m m' : Kservice.Memory} {addr : ℕ} (h : m' addr = m addr)
    (h' : m' (addr + 1) = m (addr + 1)) : loadHalf m' addr = loadHalf m addr := by
  simp only [loadHalf, h, h']

theorem storeHalf_outside {m : Kservice.Memory} {addr x : ℕ} {value : BitVec 16}
    (hx : x < addr ∨ addr + 2 ≤ x) : storeHalf addr value m x = m x := if_neg (by omega)

def Encodes (m m' : Kservice.Memory) (place type : ℕ) (symVal : BitVec 32) : Prop :=
  let word := loadWord m place
  let word' := loadWord m' place
  match type with
  | R_ARM_ABS32 | R_ARM_RELATIVE => word' = symVal + word
  | R_ARM_REL32 => word' = symVal + word - BitVec.ofNat 32 place
  | R_ARM_GLOB_DAT | R_ARM_JUMP_SLOT => word' = symVal
  | R_ARM_PC24 | R_ARM_PLT32 | R_ARM_CALL | R_ARM_JUMP24 =>
    let d := symVal + armDisplacement word - BitVec.ofNat 32 place
    word' &&& 0xff000000#32 = word &&& 0xff000000#32 ∧
      (d &&& 3#32 = 0 → -2 ^ 25 ≤ d.toInt → d.toInt < 2 ^ 25 → armDisplacement word' = d)
  | R_ARM_THM_CALL | R_ARM_THM_JUMP24 =>
    let upper := loadHalf m place
    let lower := loadHalf m (place + 2)
    let d := symVal + thumbDisplacement upper lower - BitVec.ofNat 32 place
    loadHalf m' place &&& 0xf800#16 = upper &&& 0xf800#16 ∧
      loadHalf m' (place + 2) &&& 0xd000#16 = lower &&& 0xd000#16 ∧
      (-2 ^ 24 ≤ d.toInt → d.toInt < 2 ^ 24 →
        thumbDisplacement (loadHalf m' place) (loadHalf m' (place + 2)) = d &&& 0xfffffffe#32)
  | _ => True

/-- A relocation is refused or encodes the value, and changes nothing else. -/
structure Relocated (m : Kservice.Memory) (place type : ℕ) (symVal : BitVec 32)
    (r : ℤ × Kservice.Memory) : Prop where
  refused : r.1 = -1 → r.2 = m
  frame : r.1 = 0 → ∀ x, x < place ∨ place + 4 ≤ x → r.2 x = m x
  encodes : r.1 = 0 → Encodes m r.2 place type symVal

/-- A Thumb branch is refused, or the patch of its lower halfword changes nothing, neither there nor
eight bytes on. -/
def ThumbSpared (m : Kservice.Memory) (place : ℕ) (symVal : BitVec 32) : Prop :=
  let a := thumbDisplacement (loadHalf m place) (loadHalf m (place + 2))
  let d := symVal + a - BitVec.ofNat 32 place
  (d &&& 1#32 = 0 ∨ d.toInt ≤ -2 ^ 24 ∨ 2 ^ 24 ≤ d.toInt) ∨
    SameLower a d ∧ loadHalf m (place + 8) = loadHalf m (place + 2)

theorem storeHalf_loadHalf (m : Kservice.Memory) (addr : ℕ) :
    storeHalf addr (loadHalf m addr) m = m := by
  funext x
  unfold storeHalf
  split_ifs with hx
  · apply eq_of_toNat_eq
    have hcase : x = addr ∨ x = addr + 1 := by omega
    rcases hcase with rfl | rfl <;> simp [loadHalf, Nat.shiftRight_eq_div_pow] <;> omega
  · rfl

theorem thumbUpper_opcode (upper : BitVec 16) (d : BitVec 32) :
    thumbUpper (upper.setWidth 32) d &&& 0xf800#16 = upper &&& 0xf800#16 := by
  have hmask : ∀ i < 16, (0xf800#16).getLsbD i = decide (11 ≤ i) := by decide
  apply eq_of_getLsbD_eq
  intro i hi
  rw [getLsbD_and, getLsbD_and, hmask i hi, thumbUpper_bit _ _ i hi]
  by_cases hge : 11 ≤ i
  · rw [if_neg (by omega), if_neg (by omega)]
  · rw [decide_eq_false hge, Bool.and_false, Bool.and_false]

theorem branchWord_opcode (word d : BitVec 32) :
    branchWord word d &&& 0xff000000#32 = word &&& 0xff000000#32 := by
  have hmask : ∀ i < 32, (0xff000000#32).getLsbD i = decide (24 ≤ i) := by decide
  have hfield : ∀ i < 32, 24 ≤ i → (0x00ffffff#32).getLsbD i = false := by decide
  apply eq_of_getLsbD_eq
  intro i hi
  simp only [branchWord, getLsbD_and, getLsbD_or, hmask i hi]
  by_cases hge : 24 ≤ i
  · rw [hfield i hi hge, Bool.and_false, Bool.or_false, Bool.and_assoc, Bool.and_self]
  · rw [decide_eq_false hge, Bool.and_false, Bool.and_false]

theorem offset_eq (a s p : BitVec 32) : a + (s - p) = s + a - p := by
  rw [sub_eq_add_neg, sub_eq_add_neg]
  ac_rfl

/-- The two halfwords of a Thumb branch. -/
theorem relocateThumb_iff (m : Kservice.Memory) (place type : ℕ) (symVal : BitVec 32)
    (htype : type = R_ARM_THM_CALL ∨ type = R_ARM_THM_JUMP24) :
    Relocated m place type symVal (relocateThumb m place symVal) ↔ ThumbSpared m place symVal := by
  unfold relocateThumb ThumbSpared
  simp only [thumbAddend_eq, offset_eq, Int.reduceNeg, Int.reducePow]
  set upper := loadHalf m place with hupper
  set lower := loadHalf m (place + 2) with hlower
  set d := symVal + thumbDisplacement upper lower - BitVec.ofNat 32 place with hd
  split_ifs with hbad
  · refine ⟨fun _ => .inl hbad, fun _ => ⟨fun _ => rfl, fun h => ?_, fun h => ?_⟩⟩
    · nomatch show (-1 : ℤ) = 0 from h
    · nomatch show (-1 : ℤ) = 0 from h
  · have hfits : -2 ^ 24 ≤ d.toInt ∧ d.toInt < 2 ^ 24 := by omega
    set m' := storeHalf (place + 2 * 4) (thumbLower (lower.setWidth 32) d)
      (storeHalf place (thumbUpper (upper.setWidth 32) d) m) with hm'
    have hupper' : loadHalf m' place = thumbUpper (upper.setWidth 32) d := by
      rw [hm', loadHalf_congr (storeHalf_outside (by omega)) (storeHalf_outside (by omega)),
        loadHalf_storeHalf]
    have houtside : ∀ x, place + 2 ≤ x → x < place + 8 ∨ place + 10 ≤ x → m' x = m x := by
      intro x hx hfar
      rw [hm', storeHalf_outside (by omega), storeHalf_outside (by omega)]
    have hlower' : loadHalf m' (place + 2) = lower :=
      loadHalf_congr (houtside _ (by omega) (by omega)) (houtside _ (by omega) (by omega))
    have hencodes : Encodes m m' place type symVal ↔
        (loadHalf m' place &&& 0xf800#16 = upper &&& 0xf800#16 ∧
          loadHalf m' (place + 2) &&& 0xd000#16 = lower &&& 0xd000#16 ∧
          (-2 ^ 24 ≤ d.toInt → d.toInt < 2 ^ 24 →
            thumbDisplacement (loadHalf m' place) (loadHalf m' (place + 2)) =
              d &&& 0xfffffffe#32)) := by
      rcases htype with rfl | rfl <;> exact Iff.rfl
    rw [hupper', hlower'] at hencodes
    constructor
    · intro h
      have hsame := (thumb_unchanged_iff upper lower hfits.1 hfits.2).1
        ((hencodes.1 (h.encodes rfl)).2.2 hfits.1 hfits.2)
      refine .inr ⟨hsame, ?_⟩
      have hkept : loadHalf m' (place + 8) = loadHalf m (place + 8) :=
        loadHalf_congr (h.frame rfl _ (by omega)) (h.frame rfl _ (by omega))
      rw [← hkept, hm', loadHalf_storeHalf, thumbLower_of_same hsame]
    · rintro (hbad' | ⟨hsame, hfar⟩)
      · contradiction
      · refine ⟨fun h => absurd (show (0 : ℤ) = -1 from h) (by decide), fun _ x hx => ?_, fun _ => hencodes.2
          ⟨thumbUpper_opcode _ _, rfl, fun hlow hhigh =>
            (thumb_unchanged_iff upper lower hlow hhigh).2 hsame⟩⟩
        have hkept : storeHalf (place + 8) lower m x = m x := by
          rw [← hfar, storeHalf_loadHalf]
        change m' x = m x
        rw [hm', thumbLower_of_same hsame]
        unfold storeHalf at hkept ⊢
        split_ifs at hkept ⊢ with hin hplace
        · exact hkept
        · omega
        · rfl

/-- Every relocation is right but that of a Thumb branch, whose lower halfword is written
eight bytes too far on. -/
theorem rtModuleArmRelocate_iff (m : Kservice.Memory) (place type : ℕ) (symVal : BitVec 32) :
    Relocated m place type symVal (rtModuleArmRelocate m place type symVal) ↔
      (type = R_ARM_THM_CALL ∨ type = R_ARM_THM_JUMP24 → ThumbSpared m place symVal) := by
  have hpatch : ∀ value, Encodes m (storeWord place value m) place type symVal →
      Relocated m place type symVal (0, storeWord place value m) := by
    intro value hencodes
    exact ⟨fun h => absurd (show (0 : ℤ) = -1 from h) (by decide),
      fun _ x hx => if_neg (by omega), fun _ => hencodes⟩
  by_cases hthumb : type = R_ARM_THM_CALL ∨ type = R_ARM_THM_JUMP24
  · rw [← relocateThumb_iff m place type symVal hthumb]
    rcases hthumb with rfl | rfl <;> exact ⟨fun h _ => h, fun h => h (by decide)⟩
  · refine iff_of_true ?_ fun h => absurd h hthumb
    set word := loadWord m place with hword
    set d := symVal + armDisplacement word - BitVec.ofNat 32 place with hd
    have hnew : symVal - BitVec.ofNat 32 place + branchAddend word = d := by
      rw [BitVec.add_comm, offset_eq, branchAddend_eq]
    have hbranch : ∀ value, value = branchWord word d →
        loadWord (storeWord place value m) place &&& 0xff000000#32 = word &&& 0xff000000#32 ∧
        (d &&& 3#32 = 0 → -2 ^ 25 ≤ d.toInt → d.toInt < 2 ^ 25 →
          armDisplacement (loadWord (storeWord place value m) place) = d) := by
      rintro value rfl
      rw [loadWord_storeWord]
      exact ⟨branchWord_opcode word d, arm_decode word⟩
    unfold rtModuleArmRelocate
    split
    case h_1 => exact ⟨fun _ => rfl, fun _ _ _ => rfl, fun _ => trivial⟩
    case h_2 => exact hpatch _ ((loadWord_storeWord ..).trans (BitVec.add_comm ..))
    case h_3 | h_4 | h_5 | h_6 => exact hpatch _ (hbranch _ (by rw [← hnew]))
    case h_7 => exact hpatch _ ((loadWord_storeWord ..).trans (offset_eq ..))
    case h_8 => exact hpatch _ trivial
    case h_9 | h_10 | h_11 => exact hpatch _ (loadWord_storeWord ..)
    case h_12 => exact absurd (.inl rfl) hthumb
    case h_13 => exact absurd (.inr rfl) hthumb
    case h_14 =>
      exact ⟨fun _ => rfl, fun h => absurd (show (-1 : ℤ) = 0 from h) (by decide),
        fun h => absurd (show (-1 : ℤ) = 0 from h) (by decide)⟩

def zeroBranch : Kservice.Memory := fun x => [0x00, 0xf0, 0x00, 0xf8].getD x 0

/-- The lower halfword of a branch is written six bytes too high. -/
theorem not_rtModuleArmRelocate : ¬∀ (m : Kservice.Memory) (place type : ℕ) (symVal : BitVec 32),
    Relocated m place type symVal (rtModuleArmRelocate m place type symVal) := by
  intro h
  have hframe := (h zeroBranch 0 R_ARM_THM_CALL 0x101).frame (by decide) 8 (by decide)
  cases hframe

end RtThread.Module
