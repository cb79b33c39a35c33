import RtThread.ByteMemory
import Mathlib.Data.List.GetD

/-!
# Byte strings in memory

Runs of bytes, and strings that end with a zero byte: a comparison of such a
string with a given one, and a copy into a field of fixed width which ends the
string only when there is room.
-/

namespace RtThread.Memory

open List

variable {m m' : Memory} {addr n : ℕ} {l s t : List UInt8}

def bytes (m : Memory) (addr count : ℕ) : List UInt8 := (List.range count).map fun k => m (addr + k)

def put (m : Memory) (addr : ℕ) (bytes : List UInt8) : Memory :=
  fun x => if addr ≤ x ∧ x < addr + bytes.length then bytes.getD (x - addr) 0 else m x

theorem getElem?_bytes (m : Memory) (addr count k : ℕ) :
    (m.bytes addr count)[k]? = if k < count then some (m (addr + k)) else none := by
  unfold bytes
  by_cases hk : k < count
  · simp [hk]
  · simp [hk]

theorem put_outside {b : ℕ} (m : Memory) (hout : b < addr ∨ addr + l.length ≤ b) :
    m.put addr l b = m b := by
  have hnot : ¬(addr ≤ b ∧ b < addr + l.length) := by omega
  exact if_neg hnot

theorem put_inside {k : ℕ} (m : Memory) (hk : k < l.length) : m.put addr l (addr + k) = l[k] := by
  unfold put
  rw [if_pos (by omega), Nat.add_sub_cancel_left, getD_eq_getElem _ _ hk]

theorem put_nil (m : Memory) (addr : ℕ) : m.put addr [] = m := by
  funext b
  exact put_outside m (by simp; omega)

structure ShowsString (m : Memory) (addr : ℕ) (s : List UInt8) : Prop where
  char : ∀ k (hk : k < s.length), m (addr + k) = s[k]
  zero : m (addr + s.length) = 0

theorem ShowsString.congr (hshows : ShowsString m addr s)
    (hsame : ∀ b, addr ≤ b → b ≤ addr + s.length → m' b = m b) : ShowsString m' addr s where
  char k hk := by rw [hsame _ (by omega) (by omega), hshows.char k hk]
  zero := by rw [hsame _ (by omega) le_rfl, hshows.zero]

theorem ShowsString.tail {c : UInt8} (hshows : ShowsString m addr (c :: s)) :
    ShowsString m (addr + 1) s where
  char k hk := by
    have hchar := hshows.char (k + 1) (by simpa using hk)
    rwa [getElem_cons_succ, show addr + (k + 1) = addr + 1 + k by omega] at hchar
  zero := by
    have hzero := hshows.zero
    rwa [length_cons, show addr + (s.length + 1) = addr + 1 + s.length by omega] at hzero

/-- The string at `addr` is `t`, in the way of `strcmp`: the comparison ends at the first zero
byte of the memory or at the first difference. -/
def sameString (m : Memory) : ℕ → List UInt8 → Bool
  | addr, [] => m addr == 0
  | addr, c :: t => m addr != 0 && m addr == c && sameString m (addr + 1) t

theorem ShowsString.sameString_iff (hshows : ShowsString m addr s) (hs : 0 ∉ s) :
    sameString m addr t = true ↔ 0 ∉ t ∧ s = t := by
  induction s generalizing addr t with
  | nil =>
    have hzero : m addr = 0 := hshows.zero
    cases t with
    | nil | cons c t => simp [sameString, hzero]
  | cons c s ih =>
    have hchar : m addr = c := hshows.char 0 (by simp)
    have hc : c ≠ 0 := fun heq => hs (heq ▸ mem_cons_self)
    cases t with
    | nil => simp [sameString, hchar, hc]
    | cons c' t =>
      have htail := ih hshows.tail (fun hmem => hs (mem_cons_of_mem c hmem)) (t := t)
      simp only [sameString, hchar, Bool.and_eq_true, bne_iff_ne, beq_iff_eq, htail,
        mem_cons, cons.injEq]
      grind

/-- `strncpy`: the field is filled up with zero bytes, and a longer string is cut. -/
def strncpy (m : Memory) (dst : ℕ) (src : List UInt8) (n : ℕ) : Memory :=
  m.put dst ((src ++ List.replicate n 0).take n)

theorem length_padded (src : List UInt8) (n : ℕ) :
    ((src ++ List.replicate n 0).take n).length = n := by
  simp

theorem strncpy_outside {b dst : ℕ} (m : Memory) (src : List UInt8)
    (hout : b < dst ∨ dst + n ≤ b) : m.strncpy dst src n b = m b := by
  apply put_outside
  rw [length_padded]
  exact hout

theorem strncpy_shows {dst : ℕ} (m : Memory) (hlength : s.length < n) :
    ShowsString (m.strncpy dst s n) dst s := by
  have hpadded : ∀ k (hk : k < ((s ++ List.replicate n 0).take n).length),
      m.strncpy dst s n (dst + k) = ((s ++ List.replicate n 0).take n)[k] :=
    fun k hk => put_inside m hk
  have hsize := length_padded s n
  constructor
  · intro k hk
    rw [hpadded k (by omega), getElem_take, getElem_append_left hk]
  · rw [hpadded s.length (by omega), getElem_take, getElem_append_right le_rfl]
    simp

end RtThread.Memory
