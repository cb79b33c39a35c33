import Mathlib.Data.Nat.Bitwise
import Mathlib.Tactic

/-!
# Unsigned 32-bit arithmetic on natural numbers

The kernel is built for machines whose `unsigned long` has 32 bits.  Words are
natural numbers below `2 ^ 32`; additions and subtractions reduce modulo
`2 ^ 32`, so every wrap of the C code is visible in the model.  The second
half evaluates the two masking idioms that round a word to a power of two.
-/

namespace RtThread.Word

open Nat

def add32 (x y : ℕ) : ℕ := (x + y) % 4294967296

def sub32 (x y : ℕ) : ℕ := (x + (4294967296 - y)) % 4294967296

def pred32 (x : ℕ) : ℕ := if x = 0 then 4294967295 else x - 1

def mul32 (x y : ℕ) : ℕ := (x * y) % 4294967296

def succ16 (x : ℕ) : ℕ := (x + 1) % 65536

def pred16 (x : ℕ) : ℕ := if x = 0 then 65535 else x - 1

theorem add32_eq_of_lt {x y : ℕ} (hsum : x + y < 4294967296) : add32 x y = x + y :=
  mod_eq_of_lt hsum

theorem sub32_eq_of_le {x y : ℕ} (hle : y ≤ x) (hx : x < 4294967296) : sub32 x y = x - y := by
  unfold sub32
  lia

theorem pred32_eq_of_pos {x : ℕ} (hx : 0 < x) : pred32 x = x - 1 :=
  if_neg (by omega)

theorem succ16_eq_of_lt {x : ℕ} (hx : x < 65535) : succ16 x = x + 1 :=
  mod_eq_of_lt (by omega)

theorem pred16_eq_of_pos {x : ℕ} (hx : 0 < x) : pred16 x = x - 1 :=
  if_neg (by omega)

theorem mul32_eq_of_lt {x y : ℕ} (hprod : x * y < 4294967296) : mul32 x y = x * y :=
  mod_eq_of_lt hprod

theorem add32_le (x y : ℕ) : add32 x y ≤ x + y := Nat.mod_le _ _

theorem add32_lt (x y : ℕ) : add32 x y < 4294967296 := Nat.mod_lt _ (by decide)

theorem mul32_lt (x y : ℕ) : mul32 x y < 4294967296 := Nat.mod_lt _ (by decide)

def alignUp (size align : ℕ) : ℕ :=
  ((size + align - 1) % 4294967296) &&& (4294967296 - align)

def alignDown (size align : ℕ) : ℕ :=
  size &&& (4294967296 - align)

theorem and_mask_eq {x k : ℕ} (hx : x < 4294967296) (hk : k ≤ 32) :
    x &&& (4294967296 - 2 ^ k) = x / 2 ^ k * 2 ^ k := by
  have hmask : 4294967296 - 2 ^ k = (2 ^ (32 - k) - 1) * 2 ^ k := by
    rw [Nat.sub_mul, ← Nat.pow_add, Nat.sub_add_cancel hk]
    norm_num
  apply eq_of_testBit_eq
  intro i
  rw [testBit_and, hmask, testBit_mul_two_pow,
    testBit_mul_two_pow, testBit_two_pow_sub_one, testBit_div_two_pow]
  by_cases hi : k ≤ i
  · by_cases hbit : i < 32
    · have hlow : i - k < 32 - k := by omega
      simp [hi, hlow]
    · have hzero : x.testBit i = false := by
        apply testBit_lt_two_pow
        calc
          x < 2 ^ 32 := hx
          _ ≤ 2 ^ i := Nat.pow_le_pow_right (by decide) (by omega)
      simp [hi, hzero]
  · simp [hi]

section PowerOfTwo

variable {size k : ℕ}

theorem dvd_alignDown (hsize : size < 4294967296) (hk : k ≤ 32) :
    2 ^ k ∣ alignDown size (2 ^ k) := by
  rw [alignDown, and_mask_eq hsize hk]
  exact Dvd.intro_left _ rfl

theorem alignDown_le (hsize : size < 4294967296) (hk : k ≤ 32) : alignDown size (2 ^ k) ≤ size := by
  rw [alignDown, and_mask_eq hsize hk]
  exact div_mul_le_self _ _

theorem le_alignDown {x : ℕ} (hsize : size < 4294967296) (hk : k ≤ 32)
    (hdvd : 2 ^ k ∣ x) (hle : x ≤ size) : x ≤ alignDown size (2 ^ k) := by
  rw [alignDown, and_mask_eq hsize hk, ← Nat.div_mul_cancel hdvd]
  exact Nat.mul_le_mul_right _ (Nat.div_le_div_right hle)

section

variable (hk : k ≤ 32)
include hk

theorem dvd_alignUp : 2 ^ k ∣ alignUp size (2 ^ k) := by
  rw [alignUp, and_mask_eq (mod_lt _ (by decide)) hk]
  exact Dvd.intro_left _ rfl

theorem alignUp_lt : alignUp size (2 ^ k) < 4294967296 := by
  have hmod : (size + 2 ^ k - 1) % 4294967296 < 4294967296 := mod_lt _ (by decide)
  rw [alignUp, and_mask_eq hmod hk]
  exact (div_mul_le_self _ _).trans_lt hmod

theorem le_alignUp (hsize : size + 2 ^ k ≤ 4294967296) :
    size ≤ alignUp size (2 ^ k) := by
  have hmod : (size + 2 ^ k - 1) % 4294967296 = size + 2 ^ k - 1 := mod_eq_of_lt (by omega)
  rw [alignUp, and_mask_eq (mod_lt _ (by decide)) hk, hmod]
  have hdiv := div_add_mod (size + 2 ^ k - 1) (2 ^ k)
  rw [mul_comm] at hdiv
  omega

theorem alignUp_lt_add (hsize : size + 2 ^ k ≤ 4294967296) :
    alignUp size (2 ^ k) < size + 2 ^ k := by
  have hpos : 0 < 2 ^ k := Nat.two_pow_pos k
  have hmod : (size + 2 ^ k - 1) % 4294967296 = size + 2 ^ k - 1 := mod_eq_of_lt (by omega)
  rw [alignUp, and_mask_eq (mod_lt _ (by decide)) hk, hmod]
  have hle := div_mul_le_self (size + 2 ^ k - 1) (2 ^ k)
  omega

theorem alignUp_eq_zero_of_wrap
    (hsize : size < 4294967296) (hwrap : 4294967296 < size + 2 ^ k) : alignUp size (2 ^ k) = 0 := by
  have hmod : (size + 2 ^ k - 1) % 4294967296 = size + 2 ^ k - 1 - 4294967296 := by
    have hpow : 2 ^ k ≤ 4294967296 := by
      calc
        2 ^ k ≤ 2 ^ 32 := Nat.pow_le_pow_right (by decide) hk
        _ = 4294967296 := by norm_num
    omega
  rw [alignUp, and_mask_eq (mod_lt _ (by decide)) hk, hmod,
    div_eq_of_lt (by omega), zero_mul]

end

end PowerOfTwo

theorem length_le_of_nodup {low high : ℕ} {l : List ℕ} (hnodup : l.Nodup) (hlow : ∀ i ∈ l, low ≤ i)
    (hhigh : ∀ i ∈ l, i < high) : l.length ≤ high - low := by
  rw [← List.toFinset_card_of_nodup hnodup, ← card_Ico]
  apply Finset.card_le_card
  intro i hi
  rw [List.mem_toFinset] at hi
  exact Finset.mem_Ico.mpr ⟨hlow i hi, hhigh i hi⟩

-- Comparing two words must not unfold the division by `2 ^ 32`.
attribute [irreducible] add32 sub32 mul32

end RtThread.Word
