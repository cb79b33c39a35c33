import RtThread.WordArith
import Mathlib.Logic.Function.Basic

/-!
# Priority bitmaps

A set of priorities is kept in 32 bits, or, above 32 priorities, in bytes of eight
priorities each with one bit for every byte which is not zero.  The smallest
priority is found with `__rt_ffs`.
-/

namespace RtThread.Bitmap

open Function

def lowestBitBitmap : List ℕ :=
  [0, 0, 1, 0, 2, 0, 1, 0, 3, 0, 1, 0, 2, 0, 1, 0, 4, 0, 1, 0, 2, 0, 1, 0, 3, 0, 1, 0, 2, 0, 1, 0,
    5, 0, 1, 0, 2, 0, 1, 0, 3, 0, 1, 0, 2, 0, 1, 0,
    4, 0, 1, 0, 2, 0, 1, 0, 3, 0, 1, 0, 2, 0, 1, 0,
    6, 0, 1, 0, 2, 0, 1, 0, 3, 0, 1, 0, 2, 0, 1, 0,
    4, 0, 1, 0, 2, 0, 1, 0, 3, 0, 1, 0, 2, 0, 1, 0,
    5, 0, 1, 0, 2, 0, 1, 0, 3, 0, 1, 0, 2, 0, 1, 0,
    4, 0, 1, 0, 2, 0, 1, 0, 3, 0, 1, 0, 2, 0, 1, 0,
    7, 0, 1, 0, 2, 0, 1, 0, 3, 0, 1, 0, 2, 0, 1, 0,
    4, 0, 1, 0, 2, 0, 1, 0, 3, 0, 1, 0, 2, 0, 1, 0,
    5, 0, 1, 0, 2, 0, 1, 0, 3, 0, 1, 0, 2, 0, 1, 0,
    4, 0, 1, 0, 2, 0, 1, 0, 3, 0, 1, 0, 2, 0, 1, 0,
    6, 0, 1, 0, 2, 0, 1, 0, 3, 0, 1, 0, 2, 0, 1, 0,
    4, 0, 1, 0, 2, 0, 1, 0, 3, 0, 1, 0, 2, 0, 1, 0,
    5, 0, 1, 0, 2, 0, 1, 0, 3, 0, 1, 0, 2, 0, 1, 0,
    4, 0, 1, 0, 2, 0, 1, 0, 3, 0, 1, 0, 2, 0, 1, 0]

/-- `__rt_ffs`; the last mask is unsigned, so that the shift brings in zeros also
for a negative argument. -/
def rtFfs (value : BitVec 32) : ℕ :=
  if value = 0 then 0
  else if value &&& 0xff ≠ 0 then lowestBitBitmap.getD (value &&& 0xff).toNat 0 + 1
  else if value &&& 0xff00 ≠ 0 then
    lowestBitBitmap.getD ((value &&& 0xff00) >>> 8).toNat 0 + 9
  else if value &&& 0xff0000 ≠ 0 then
    lowestBitBitmap.getD ((value &&& 0xff0000) >>> 16).toNat 0 + 17
  else lowestBitBitmap.getD ((value &&& 0xff000000) >>> 24).toNat 0 + 25

def Lowest {w : ℕ} (value : BitVec w) (k : ℕ) : Prop :=
  value.getLsbD k = true ∧ ∀ j < k, value.getLsbD j = false

theorem lowest_byte (byte : BitVec 8) (hne : byte ≠ 0) :
    Lowest byte (lowestBitBitmap.getD byte.toNat 0) := by
  have htable : ∀ entry ∈ lowestBitBitmap.zipIdx, entry.2 ≠ 0 →
      entry.2 % 2 ^ (entry.1 + 1) = 2 ^ entry.1 := by
    decide +kernel
  have hlength : 256 = lowestBitBitmap.length := by decide +kernel
  have hlt : byte.toNat < lowestBitBitmap.length := hlength ▸ byte.isLt
  have hentry : (lowestBitBitmap.getD byte.toNat 0, byte.toNat) ∈ lowestBitBitmap.zipIdx := by
    rw [List.mem_zipIdx_iff_getElem?, List.getD_eq_getElem _ _ hlt]
    exact List.getElem?_eq_getElem hlt
  have hmod := htable _ hentry fun hzero => hne (BitVec.eq_of_toNat_eq hzero)
  have hbits : ∀ j < lowestBitBitmap.getD byte.toNat 0 + 1,
      byte.getLsbD j = decide (lowestBitBitmap.getD byte.toNat 0 = j) := by
    intro j hj
    have hlow := Nat.testBit_mod_two_pow byte.toNat (lowestBitBitmap.getD byte.toNat 0 + 1) j
    rw [hmod, Nat.testBit_two_pow, decide_eq_true hj, Bool.true_and] at hlow
    exact hlow.symm
  constructor
  · rw [hbits _ (Nat.lt_succ_self _), decide_eq_true rfl]
  · intro j hj
    rw [hbits j (by omega), decide_eq_false (by omega)]

section Bytes

variable {value : BitVec 32} {o j : ℕ}

def byteMask (o : ℕ) : BitVec 32 := (BitVec.allOnes 8).setWidth 32 <<< o

theorem getLsbD_byteMask (ho : o + 8 ≤ 32) :
    (byteMask o).getLsbD j = decide (o ≤ j ∧ j < o + 8) := by
  unfold byteMask
  rw [ BitVec.getLsbD_shiftLeft, BitVec.getLsbD_setWidth, BitVec.getLsbD_allOnes]
  by_cases hj : o ≤ j ∧ j < o + 8
  · simp [hj, show j < 32 by lia, show j - o < 32 by lia, show j - o < 8 by lia]
  · by_cases hlt : j < o
    · simp [hlt]
    · simp [show ¬j < o + 8 by lia, show ¬j - o < 8 by lia]

theorem getLsbD_of_byte_eq_zero (ho : o + 8 ≤ 32) (hzero : value &&& byteMask o = 0) (hle : o ≤ j)
    (hlt : j < o + 8) : value.getLsbD j = false := by
  have hbit : (value &&& byteMask o).getLsbD j = false := by
    rw [hzero]
    simp
  rw [BitVec.getLsbD_and, getLsbD_byteMask ho] at hbit
  simpa [hle, hlt] using hbit

theorem shift_byte_eq (value : BitVec 32) (ho : o + 8 ≤ 32) :
    (value &&& byteMask o) >>> o = (value.extractLsb' o 8).setWidth 32 := by
  apply BitVec.eq_of_getLsbD_eq
  intro i hi
  rw [BitVec.getLsbD_ushiftRight, BitVec.getLsbD_and, getLsbD_byteMask ho,
    BitVec.getLsbD_setWidth, BitVec.getLsbD_extractLsb']
  by_cases hi8 : i < 8
  · simp [hi8, hi]
  · simp [hi8]

theorem lowest_of_byte (ho : o + 8 ≤ 32) (hbelow : ∀ j < o, value.getLsbD j = false)
    (hne : value &&& byteMask o ≠ 0) :
    Lowest value (o + lowestBitBitmap.getD ((value &&& byteMask o) >>> o).toNat 0) := by
  have hbyte : value.extractLsb' o 8 ≠ 0 := by
    intro hzero
    apply hne
    apply BitVec.eq_of_getLsbD_eq
    intro j hj
    rw [BitVec.getLsbD_and, getLsbD_byteMask ho]
    by_cases hin : o ≤ j ∧ j < o + 8
    · have hbit : (value.extractLsb' o 8).getLsbD (j - o) = false := by
        rw [hzero]
        simp
      rw [BitVec.getLsbD_extractLsb', show o + (j - o) = j by lia] at hbit
      simpa [hin, show j - o < 8 by lia] using hbit
    · simp [hin]
  rw [shift_byte_eq value ho]
  have hnat : ((value.extractLsb' o 8).setWidth 32).toNat = (value.extractLsb' o 8).toNat := by
    have hlt := (value.extractLsb' o 8).isLt
    rw [BitVec.toNat_setWidth, Nat.mod_eq_of_lt (by lia)]
  rw [hnat]
  rcases lowest_byte _ hbyte with ⟨hset, hlow⟩
  generalize lowestBitBitmap.getD (value.extractLsb' o 8).toNat 0 = k at *
  constructor
  · rw [BitVec.getLsbD_extractLsb', Bool.and_eq_true] at hset
    exact hset.2
  · intro j hj
    by_cases hjo : j < o
    · exact hbelow j hjo
    · have hbit := hlow (j - o) (by lia)
      have hk : k < 8 := by
        by_contra hge
        rw [BitVec.getLsbD_of_ge _ _ (not_lt.mp hge)] at hset
        cases hset
      rw [BitVec.getLsbD_extractLsb', show o + (j - o) = j by lia] at hbit
      simpa [show j - o < 8 by lia] using hbit

/-- `__rt_ffs` gives the lowest bit set, counted from one. -/
theorem rtFfs_spec (hne : value ≠ 0) : ∃ k, k < 32 ∧ rtFfs value = k + 1 ∧ Lowest value k := by
  have hfound : ∃ k, rtFfs value = k + 1 ∧ Lowest value k := by
    unfold rtFfs
    rw [if_neg hne]
    have hmask : (0xff : BitVec 32) = byteMask 0 ∧ (0xff00 : BitVec 32) = byteMask 8 ∧
        (0xff0000 : BitVec 32) = byteMask 16 ∧ (0xff000000 : BitVec 32) = byteMask 24 := by
      decide
    rw [hmask.1, hmask.2.1, hmask.2.2.1, hmask.2.2.2]
    split_ifs with hfirst hsecond hthird
    · have hlow := lowest_of_byte (o := 0) (by decide) (fun j hj => absurd hj (by lia)) hfirst
      exact ⟨_, rfl, by simpa using hlow⟩
    · have hbelow : ∀ j < 8, value.getLsbD j = false := by
        intro j hj
        exact getLsbD_of_byte_eq_zero (by decide) (not_not.mp hfirst) (Nat.zero_le j) (by lia)
      have hlow := lowest_of_byte (by decide) hbelow hsecond
      exact ⟨_, by lia, hlow⟩
    · have hbelow : ∀ j < 16, value.getLsbD j = false := by
        intro j hj
        by_cases hj8 : j < 8
        · exact getLsbD_of_byte_eq_zero (by decide) (not_not.mp hfirst) (Nat.zero_le j) (by lia)
        · exact getLsbD_of_byte_eq_zero (by decide) (not_not.mp hsecond) (by lia) (by lia)
      have hlow := lowest_of_byte (by decide) hbelow hthird
      exact ⟨_, by lia, hlow⟩
    · have hbelow : ∀ j < 24, value.getLsbD j = false := by
        intro j hj
        by_cases hj8 : j < 8
        · exact getLsbD_of_byte_eq_zero (by decide) (not_not.mp hfirst) (Nat.zero_le j) (by lia)
        · by_cases hj16 : j < 16
          · exact getLsbD_of_byte_eq_zero (by decide) (not_not.mp hsecond) (by lia) (by lia)
          · exact getLsbD_of_byte_eq_zero (by decide) (not_not.mp hthird) (by lia) (by lia)
      have hlast : value &&& byteMask 24 ≠ 0 := by
        intro hzero
        apply hne
        apply BitVec.eq_of_getLsbD_eq
        intro j hj
        change value.getLsbD j = (0#32).getLsbD j
        rw [BitVec.getLsbD_zero]
        by_cases hj24 : j < 24
        · exact hbelow j hj24
        · exact getLsbD_of_byte_eq_zero (by decide) hzero (by lia) (by lia)
      have hlow := lowest_of_byte (by decide) hbelow hlast
      exact ⟨_, by lia, hlow⟩
  rcases hfound with ⟨k, hk, hlow⟩
  refine ⟨k, ?_, hk, hlow⟩
  by_contra hge
  have hset := hlow.1
  rw [BitVec.getLsbD_of_ge _ _ (not_lt.mp hge)] at hset
  cases hset

end Bytes

structure Masks where
  number : ℕ
  numberMask : BitVec 32
  highMask : BitVec 8
  deriving DecidableEq

structure ReadyBits where
  group : BitVec 32
  table : ℕ → BitVec 8

/-- The masks of a priority, for `n` priorities; up to 32 of them there are neither
`number` nor `high_mask`. -/
def masksOf (n priority : ℕ) : Masks :=
  if 32 < n then
    ⟨priority >>> 3, 1 <<< (priority >>> 3), 1 <<< (priority &&& 0x07)⟩
  else ⟨0, 1 <<< priority, 0⟩

def ReadyBits.set (n : ℕ) (b : ReadyBits) (m : Masks) : ReadyBits :=
  if 32 < n then
    { table := update b.table m.number (b.table m.number ||| m.highMask)
      group := b.group ||| m.numberMask }
  else { b with group := b.group ||| m.numberMask }

def ReadyBits.clear (n : ℕ) (b : ReadyBits) (m : Masks) : ReadyBits :=
  if 32 < n then
    let byte := b.table m.number &&& ~~~m.highMask
    { table := update b.table m.number byte
      group := if byte = 0 then b.group &&& ~~~m.numberMask else b.group }
  else { b with group := b.group &&& ~~~m.numberMask }

def highestReadyPriority (n : ℕ) (b : ReadyBits) : ℕ :=
  if 32 < n then
    let number := Word.pred32 (rtFfs b.group)
    Word.pred32 ((number <<< 3) + rtFfs ((b.table number).setWidth 32))
  else Word.pred32 (rtFfs b.group)

def capacity (n : ℕ) : ℕ := if 32 < n then 256 else 32

/-- The bits name the priorities with `P`, in either scheme. -/
structure Represents (n : ℕ) (b : ReadyBits) (P : ℕ → Prop) : Prop where
  bounded : ∀ p, P p → p < capacity n
  one : n ≤ 32 → ∀ p < 32, (b.group.getLsbD p = true ↔ P p)
  two : 32 < n → ∀ p < 256, ((b.table (p / 8)).getLsbD (p % 8) = true ↔ P p)
  group : 32 < n → ∀ g < 32, (b.group.getLsbD g = true ↔ b.table g ≠ 0)

section Represents

variable {n p : ℕ} {b : ReadyBits} {P : ℕ → Prop}

theorem getLsbD_one_shiftLeft {w i j : ℕ} (hi : i < w) :
    (1#w <<< i).getLsbD j = decide (j = i) := by
  change (BitVec.twoPow w i).getLsbD j = _
  rw [BitVec.getLsbD_twoPow]
  simp [hi, eq_comm]

theorem masksOf_two (hn : 32 < n) (p : ℕ) :
    masksOf n p = ⟨p / 8, 1#32 <<< (p / 8), 1#8 <<< (p % 8)⟩ := by
  have hhigh : p >>> 3 = p / 8 := Nat.shiftRight_eq_div_pow p 3
  have hlow : p &&& 0x07 = p % 8 := Nat.and_two_pow_sub_one_eq_mod p 3
  unfold masksOf
  rw [if_pos hn, hhigh, hlow]
  rfl

theorem masksOf_one (hn : n ≤ 32) (p : ℕ) : masksOf n p = ⟨0, 1#32 <<< p, 0⟩ := by
  unfold masksOf
  rw [if_neg (by omega)]
  rfl

theorem byte_ne_zero_iff {byte : BitVec 8} : byte ≠ 0 ↔ ∃ i, i < 8 ∧ byte.getLsbD i = true := by
  constructor
  · intro hne
    by_contra hnone
    push Not at hnone
    apply hne
    apply BitVec.eq_of_getLsbD_eq
    intro i hi
    change byte.getLsbD i = (0#8).getLsbD i
    rw [BitVec.getLsbD_zero]
    simpa using hnone i hi
  · rintro ⟨i, -, hbit⟩ hzero
    rw [hzero] at hbit
    simp at hbit

theorem Represents.congr {Q : ℕ → Prop} (hrep : Represents n b P) (hiff : ∀ p, Q p ↔ P p) :
    Represents n b Q := by
  have heq : Q = P := funext fun p => propext (hiff p)
  rw [heq]
  exact hrep

theorem Represents.set (hrep : Represents n b P) (hp : p < capacity n) :
    Represents n (b.set n (masksOf n p)) (fun q => q = p ∨ P q) := by
  have hbounded : ∀ q, q = p ∨ P q → q < capacity n := by
    rintro q (rfl | hq)
    · exact hp
    · exact hrep.bounded q hq
  by_cases hn : 32 < n
  · rw [capacity, if_pos hn] at hp
    have htable := hrep.two hn
    have hgroup := hrep.group hn
    rw [ReadyBits.set, if_pos hn, masksOf_two hn]
    refine ⟨hbounded, fun h => absurd h (by lia), fun _ q hq => ?_, fun _ g hg => ?_⟩
    · by_cases hbyte : q / 8 = p / 8
      · simp only [hbyte, update_self]
        rw [BitVec.getLsbD_or, getLsbD_one_shiftLeft (Nat.mod_lt p (by decide)), ← hbyte, Bool.or_eq_true, htable q hq,
          decide_eq_true_eq, or_comm]
        have hsame : q % 8 = p % 8 ↔ q = p := by lia
        rw [hsame]
      · simp only [update_of_ne hbyte]
        rw [htable q hq]
        have hqp : q ≠ p := fun h => hbyte (by rw [h])
        simp [hqp]
    · rw [BitVec.getLsbD_or, Bool.or_eq_true, getLsbD_one_shiftLeft (by lia), decide_eq_true_eq]
      by_cases hbyte : g = p / 8
      · simp only [hbyte, update_self]
        rw [byte_ne_zero_iff]
        refine iff_of_true (.inr trivial) ⟨p % 8, Nat.mod_lt p (by decide), ?_⟩
        rw [BitVec.getLsbD_or, getLsbD_one_shiftLeft (Nat.mod_lt p (by decide))]
        simp
      · simp only [update_of_ne hbyte]
        rw [← hgroup g hg]
        simp [hbyte]
  · rw [capacity, if_neg hn] at hp
    have hone := hrep.one (by lia)
    rw [ReadyBits.set, if_neg hn, masksOf_one (by lia)]
    refine ⟨hbounded, fun _ q hq => ?_, fun h => absurd h hn, fun h => absurd h hn⟩
    rw [BitVec.getLsbD_or, Bool.or_eq_true, getLsbD_one_shiftLeft hp, decide_eq_true_eq,
      hone q hq, or_comm]

theorem Represents.clear (hrep : Represents n b P) (hp : p < capacity n) :
    Represents n (b.clear n (masksOf n p)) (fun q => q ≠ p ∧ P q) := by
  have hbounded : ∀ q, q ≠ p ∧ P q → q < capacity n := fun q hq => hrep.bounded q hq.2
  by_cases hn : 32 < n
  · rw [capacity, if_pos hn] at hp
    have htable := hrep.two hn
    have hgroup := hrep.group hn
    rw [ReadyBits.clear, if_pos hn, masksOf_two hn]
    refine ⟨hbounded, fun h => absurd h (by lia), fun _ q hq => ?_, fun _ g hg => ?_⟩
    · by_cases hbyte : q / 8 = p / 8
      · have hq8 : q % 8 < 8 := Nat.mod_lt q (by decide)
        simp only [hbyte, update_self]
        rw [BitVec.getLsbD_and, BitVec.getLsbD_not,
          getLsbD_one_shiftLeft (Nat.mod_lt p (by decide)), ← hbyte, Bool.and_eq_true, htable q hq]
        have hsame : q % 8 = p % 8 ↔ q = p := by lia
        simp [hq8, hsame, and_comm]
      · simp only [update_of_ne hbyte]
        rw [htable q hq]
        have hqp : q ≠ p := fun h => hbyte (by rw [h])
        simp [hqp]
    · by_cases hbyte : g = p / 8
      · subst hbyte
        simp only [update_self]
        split_ifs with hzero
        · rw [BitVec.getLsbD_and, BitVec.getLsbD_not, getLsbD_one_shiftLeft (by lia)]
          simp [hzero]
        · rw [hgroup _ hg]
          apply iff_of_true
          · intro hbyte
            apply hzero
            rw [hbyte]
            exact BitVec.zero_and
          · exact hzero
      · simp only [update_of_ne hbyte]
        rw [← hgroup g hg]
        split_ifs
        · rw [BitVec.getLsbD_and, BitVec.getLsbD_not, getLsbD_one_shiftLeft (by lia)]
          simp [hg, hbyte]
        · rfl
  · rw [capacity, if_neg hn] at hp
    have hone := hrep.one (by lia)
    rw [ReadyBits.clear, if_neg hn, masksOf_one (by lia)]
    refine ⟨hbounded, fun _ q hq => ?_, fun h => absurd h hn, fun h => absurd h hn⟩
    rw [BitVec.getLsbD_and, BitVec.getLsbD_not, getLsbD_one_shiftLeft hp, Bool.and_eq_true,
      hone q hq]
    simp [hq, and_comm]

theorem ne_zero_of_getLsbD {w i : ℕ} {value : BitVec w} (hbit : value.getLsbD i = true) :
    value ≠ 0 := by
  intro hzero
  rw [hzero] at hbit
  simp at hbit

theorem Lowest.le {w i k : ℕ} {value : BitVec w} (hlow : Lowest value k)
    (hbit : value.getLsbD i = true) : k ≤ i := by
  by_contra hlt
  rw [hlow.2 i (not_le.mp hlt)] at hbit
  cases hbit

theorem Represents.highestReadyPriority (hrep : Represents n b P) (hp : P p) :
    P (highestReadyPriority n b) ∧ ∀ q, P q → Bitmap.highestReadyPriority n b ≤ q := by
  by_cases hn : 32 < n
  · have hbit : ∀ q, P q → q / 8 < 32 ∧ (b.table (q / 8)).getLsbD (q % 8) = true ∧
        b.group.getLsbD (q / 8) = true := by
      intro q hq
      have hq256 := hrep.bounded q hq
      rw [capacity, if_pos hn] at hq256
      have hbyte := (hrep.two hn q hq256).mpr hq
      exact ⟨by lia, hbyte, (hrep.group hn _ (by lia)).mpr (ne_zero_of_getLsbD hbyte)⟩
    rcases rtFfs_spec (ne_zero_of_getLsbD (hbit p hp).2.2) with ⟨k, hk, hffs, hlow⟩
    have hbyte := (hrep.group hn k hk).mp hlow.1
    have hwide : (b.table k).setWidth 32 ≠ 0 := by
      rcases byte_ne_zero_iff.mp hbyte with ⟨i, hi, hset⟩
      apply ne_zero_of_getLsbD (i := i)
      rw [BitVec.getLsbD_setWidth, hset]
      simp [show i < 32 by lia]
    rcases rtFfs_spec hwide with ⟨j, hj, hffs', hlow'⟩
    have hset : (b.table k).getLsbD j = true := by
      have hset := hlow'.1
      rw [BitVec.getLsbD_setWidth, Bool.and_eq_true] at hset
      exact hset.2
    have hj8 : j < 8 := by
      by_contra hge
      rw [BitVec.getLsbD_of_ge _ _ (not_lt.mp hge)] at hset
      cases hset
    have hresult : Bitmap.highestReadyPriority n b = 8 * k + j := by
      have hnumber : Word.pred32 (k + 1) = k := Word.pred32_eq_of_pos (Nat.succ_pos k)
      unfold Bitmap.highestReadyPriority
      rw [if_pos hn, hffs]
      rw [Word.pred32_eq_of_pos (by lia), Nat.shiftLeft_eq]
      lia
    rw [hresult]
    constructor
    · apply (hrep.two hn (8 * k + j) (by lia)).mp
      rw [show (8 * k + j) / 8 = k by lia, show (8 * k + j) % 8 = j by lia]
      exact hset
    · intro q hq
      rcases hbit q hq with ⟨-, hqbyte, hqgroup⟩
      have hkq := hlow.le hqgroup
      rcases Nat.lt_or_ge k (q / 8) with hless | hge
      · lia
      · have hsame : q / 8 = k := by lia
        rw [hsame] at hqbyte
        have hjq : j ≤ q % 8 := by
          apply hlow'.le
          rw [BitVec.getLsbD_setWidth, hqbyte]
          simp [show q % 8 < 32 by lia]
        lia
  · have hbit : ∀ q, P q → b.group.getLsbD q = true := by
      intro q hq
      have hq32 := hrep.bounded q hq
      rw [capacity, if_neg hn] at hq32
      exact (hrep.one (by lia) q hq32).mpr hq
    rcases rtFfs_spec (ne_zero_of_getLsbD (hbit p hp)) with ⟨k, hk, hffs, hlow⟩
    have hresult : Bitmap.highestReadyPriority n b = k := by
      unfold Bitmap.highestReadyPriority
      rw [if_neg hn, hffs, Word.pred32_eq_of_pos (by lia)]
      lia
    rw [hresult]
    exact ⟨(hrep.one (by lia) k hk).mp hlow.1, fun q hq => hlow.le (hbit q hq)⟩

end Represents

end RtThread.Bitmap
