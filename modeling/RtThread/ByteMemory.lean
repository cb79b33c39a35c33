import Mathlib.Tactic

/-!
# Byte-addressed memory with little-endian fields

A memory assigns a byte to every address.  A field is a run of consecutive
bytes read as a little-endian number.  The two facts every client needs are
that a stored field is read back, and that a store leaves every field outside
its bytes alone; block fills and block copies come with the same frame rule.
-/

namespace RtThread

abbrev Memory := ℕ → UInt8

namespace Memory

def load (m : Memory) (addr : ℕ) : ℕ → ℕ
  | 0 => 0
  | width + 1 => (m addr).toNat + 256 * load m (addr + 1) width

def store (m : Memory) (addr width value : ℕ) : Memory :=
  fun x =>
    if addr ≤ x ∧ x < addr + width then UInt8.ofNat (value / 256 ^ (x - addr))
    else m x

/-- Fill `count` bytes from `addr` on with zero, continuing at address `0`
when the end of the 32-bit address space is reached. -/
def clear (m : Memory) (addr count : ℕ) : Memory :=
  fun x => if (x + (4294967296 - addr)) % 4294967296 < count then 0 else m x

def copy (m : Memory) (dst src count : ℕ) : Memory :=
  fun x => if dst ≤ x ∧ x < dst + count then m (src + (x - dst)) else m x

def AgreeOn (m m' : Memory) (addr width : ℕ) : Prop :=
  ∀ x, addr ≤ x → x < addr + width → m' x = m x

theorem load_congr {m m' : Memory} {addr width : ℕ} (hagree : AgreeOn m m' addr width) :
    m'.load addr width = m.load addr width := by
  induction width generalizing addr with
  | zero => rfl
  | succ width ih =>
    have hhead : m' addr = m addr := hagree addr le_rfl (by omega)
    have htail : AgreeOn m m' (addr + 1) width := by
      intro x hlow hhigh
      exact hagree x (by omega) (by omega)
    simp only [load, hhead, ih htail]

theorem load_lt (m : Memory) (addr width : ℕ) : m.load addr width < 256 ^ width := by
  induction width generalizing addr with
  | zero => simp [load]
  | succ width ih =>
    have hbyte : (m addr).toNat < 256 := (m addr).toNat_lt
    have htail := ih (addr + 1)
    rw [load, Nat.pow_succ]
    omega

theorem store_agreeOn (m : Memory) {addr width value addr' width' : ℕ}
    (hapart : addr' + width' ≤ addr ∨ addr + width ≤ addr') :
    AgreeOn m (m.store addr width value) addr' width' := by
  intro x hlow hhigh
  have hout : ¬(addr ≤ x ∧ x < addr + width) := by omega
  simp [store, hout]

theorem load_store_of_apart (m : Memory) {addr width value addr' width' : ℕ}
    (hapart : addr' + width' ≤ addr ∨ addr + width ≤ addr') :
    (m.store addr width value).load addr' width' = m.load addr' width' :=
  load_congr (m.store_agreeOn hapart)

theorem load_store_digits
    (m : Memory) (addr width value shift rest : ℕ) (hrest : shift + rest ≤ width) :
    (m.store addr width value).load (addr + shift) rest = value / 256 ^ shift % 256 ^ rest := by
  induction rest generalizing shift with
  | zero => simp [load, Nat.mod_one]
  | succ rest ih =>
    have hbyte : (m.store addr width value) (addr + shift) = UInt8.ofNat (value / 256 ^ shift) := by
      have hin : addr ≤ addr + shift ∧ addr + shift < addr + width := by omega
      simp [store, hin]
    have htail := ih (shift + 1) (by omega)
    have hdigit : (UInt8.ofNat (value / 256 ^ shift)).toNat = value / 256 ^ shift % 256 := by simp
    rw [load, hbyte, Nat.add_assoc addr shift 1, htail, hdigit, Nat.pow_succ,
      ← Nat.div_div_eq_div_mul, Nat.pow_succ', Nat.mod_mul]

theorem load_store_same (m : Memory) (addr width value : ℕ) :
    (m.store addr width value).load addr width = value % 256 ^ width := by
  simpa using m.load_store_digits addr width value 0 width (by omega)

theorem clear_agreeOn (m : Memory) {addr count addr' width' : ℕ}
    (hend : addr + count ≤ 4294967296) (hend' : addr' + width' ≤ 4294967296)
    (hapart : addr' + width' ≤ addr ∨ addr + count ≤ addr') :
    AgreeOn m (m.clear addr count) addr' width' := by
  intro x hlow hhigh
  have hout : ¬(x + (4294967296 - addr)) % 4294967296 < count := by omega
  simp [clear, hout]

theorem load_clear_le (m : Memory) (addr count x width : ℕ) :
    (m.clear addr count).load x width ≤ m.load x width := by
  induction width generalizing x with
  | zero => rfl
  | succ width ih =>
    have htail := ih (x + 1)
    have hbyte : (m.clear addr count x).toNat ≤ (m x).toNat := by
      unfold clear
      split_ifs
      · exact Nat.zero_le _
      · exact le_rfl
    rw [load, load]
    omega

theorem copy_agreeOn (m : Memory) {dst src count addr' width' : ℕ}
    (hapart : addr' + width' ≤ dst ∨ dst + count ≤ addr') :
    AgreeOn m (m.copy dst src count) addr' width' := by
  intro x hlow hhigh
  have hout : ¬(dst ≤ x ∧ x < dst + count) := by omega
  simp [copy, hout]

end Memory
end RtThread
