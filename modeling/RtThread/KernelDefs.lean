import RtThread.WordArith

/-!
# Kernel definitions

The constants and rounding macros of `rtdef.h` that the memory managers, the
timers and the thread services share.  `RT_ALIGN_SIZE` is chosen in
`rtconfig.h`; it is a power of two.
-/

namespace RtThread

/-- `RT_ALIGN_SIZE`, given by its exponent. -/
structure AlignSize where
  bits : ℕ
  bits_le : bits ≤ 30
  deriving DecidableEq

namespace AlignSize

def bytes (a : AlignSize) : ℕ := 2 ^ a.bits

theorem bytes_pos (a : AlignSize) : 0 < a.bytes := Nat.two_pow_pos _

theorem bytes_le (a : AlignSize) : a.bytes ≤ 1073741824 := by
  calc
    a.bytes ≤ 2 ^ 30 := Nat.pow_le_pow_right (by decide) a.bits_le
    _ = 1073741824 := by norm_num

end AlignSize

def wordAlign : AlignSize := ⟨2, by decide⟩

def rtNull : ℕ := 0

def grant (p : ℕ) (live : List ℕ) : List ℕ :=
  if p = rtNull then live else p :: live

abbrev Thread := { t : UInt32 // t ≠ 0 }

def firstThread : Thread := ⟨1, by decide⟩

def secondThread : Thread := ⟨2, by decide⟩

def thirdThread : Thread := ⟨3, by decide⟩

instance lawfulBEqThread : LawfulBEq Thread := inferInstance

-- Threads are words, and words can be enumerated.  A quantifier over the threads
-- in a list is decided along the list.
instance decidableForallMemList (l : List Thread) (p : Thread → Prop) [DecidablePred p] :
    Decidable (∀ t ∈ l, p t) :=
  List.decidableBAll p l

instance decidableForallMemOption (o : Option Thread) (p : Thread → Prop)
    [DecidablePred p] : Decidable (∀ t ∈ o, p t) :=
  Option.decidableForallMem o

inductive ThreadStat where
  | ready
  | suspend
  deriving DecidableEq

inductive ErrorCode where
  | eok
  | error
  | etimeout
  deriving DecidableEq

/-- `RT_ALIGN(size, RT_ALIGN_SIZE)`. -/
def rtAlign (a : AlignSize) (size : ℕ) : ℕ := Word.alignUp size a.bytes

/-- `RT_ALIGN_DOWN(size, RT_ALIGN_SIZE)`. -/
def rtAlignDown (a : AlignSize) (size : ℕ) : ℕ := Word.alignDown size a.bytes

section Rounding

variable (a : AlignSize) {size : ℕ}

private theorem bits_le_32 : a.bits ≤ 32 := a.bits_le.trans (by decide)

theorem dvd_rtAlign : a.bytes ∣ rtAlign a size :=
  Word.dvd_alignUp (bits_le_32 a)

theorem rtAlign_lt : rtAlign a size < 4294967296 :=
  Word.alignUp_lt (bits_le_32 a)

theorem le_rtAlign (hsize : size + a.bytes ≤ 4294967296) : size ≤ rtAlign a size :=
  Word.le_alignUp (bits_le_32 a) hsize

theorem rtAlign_lt_add (hsize : size + a.bytes ≤ 4294967296) : rtAlign a size < size + a.bytes :=
  Word.alignUp_lt_add (bits_le_32 a) hsize

section

variable (hsize : size < 4294967296)
include hsize

theorem rtAlign_eq_zero_of_wrap (hwrap : 4294967296 < size + a.bytes) : rtAlign a size = 0 :=
  Word.alignUp_eq_zero_of_wrap (bits_le_32 a) hsize hwrap

theorem dvd_rtAlignDown : a.bytes ∣ rtAlignDown a size :=
  Word.dvd_alignDown hsize (bits_le_32 a)

theorem le_rtAlignDown {x : ℕ} (hdvd : a.bytes ∣ x) (hle : x ≤ size) : x ≤ rtAlignDown a size :=
  Word.le_alignDown hsize (bits_le_32 a) hdvd hle

theorem rtAlignDown_le : rtAlignDown a size ≤ size :=
  Word.alignDown_le hsize (bits_le_32 a)

end

end Rounding

end RtThread
