import Mathlib.Tactic

/-!
# Checksums computed a byte at a time from a table

A register takes in one byte after the other.  In the first form the byte at
the top is shifted out and selects the table entry, and the new byte comes in
at the bottom; two zero bytes flush the register, and feeding the result back
gives zero.  In the second form the new byte is added to the byte at the bottom
before that is shifted out; feeding back the complement of the register gives a
constant.  The table is arbitrary in both.  Where its entries are what eight
steps of a bit-serial register make of a byte, both forms compute what that
register does with the bits of the message.
-/

namespace RtThread.TableCrc

open BitVec

section TopFirst

variable {w : ℕ} {table : BitVec 8 → BitVec 16}

def topFirst (table : BitVec 8 → BitVec 16) (byte : BitVec 8) (crc : BitVec w) : BitVec w :=
  (table ((crc >>> 8).setWidth 8)).setWidth w ^^^ (crc <<< 8) ^^^ byte.setWidth w

theorem setWidth_topFirst (hw : 16 ≤ w) (byte : BitVec 8) (crc : BitVec w) :
    (topFirst table byte crc).setWidth 16 = topFirst table byte (crc.setWidth 16) := by
  have hindex : ((crc.setWidth 16) >>> 8).setWidth 8 = (crc >>> 8).setWidth 8 := by
    apply eq_of_getLsbD_eq
    intro i hi
    have hlow : 8 + i < 16 := by omega
    simp [getLsbD_ushiftRight, hi, hlow]
  rw [topFirst, topFirst, hindex]
  apply eq_of_getLsbD_eq
  intro i hi
  have hwide : i < w := by omega
  have hshift : ((crc.setWidth 16) <<< 8).getLsbD i = (crc <<< 8).getLsbD i := by
    have hback : i - 8 < 16 := by omega
    rw [getLsbD_shiftLeft, getLsbD_shiftLeft, getLsbD_setWidth]
    simp only [hi, hwide, hback, decide_true, Bool.true_and]
  simp only [getLsbD_setWidth, getLsbD_xor, hshift, hi, hwide, decide_true,
    Bool.true_and]

theorem topFirst_eq_xor (byte : BitVec 8) (crc : BitVec w) :
    topFirst table byte crc = topFirst table 0 crc ^^^ byte.setWidth w := by
  simp [topFirst]

theorem topFirst_flushed (crc : BitVec 16) :
    let sum := topFirst table 0 (topFirst table 0 crc)
    topFirst table (sum.setWidth 8) (topFirst table ((sum >>> 8).setWidth 8) crc) = 0 := by
  intro sum
  have hhigh : topFirst table ((sum >>> 8).setWidth 8) crc =
      topFirst table 0 crc ^^^ ((sum >>> 8).setWidth 8).setWidth 16 := topFirst_eq_xor _ _
  generalize hflush : topFirst table 0 crc = y at hhigh
  have hsum : sum = (table ((y >>> 8).setWidth 8)).setWidth 16 ^^^ (y <<< 8) := by
    change topFirst table 0 (topFirst table 0 crc) = _
    rw [hflush, topFirst]
    simp
  have hindex : ((y ^^^ ((sum >>> 8).setWidth 8).setWidth 16) >>> 8).setWidth 8 =
      (y >>> 8).setWidth 8 := by
    apply eq_of_getLsbD_eq
    intro i hi
    simp [getLsbD_ushiftRight]
  rw [hhigh, topFirst, hindex, shiftLeft_xor_distrib, ← BitVec.xor_assoc, ← hsum]
  apply eq_of_getLsbD_eq
  intro i hi
  by_cases hlow : i < 8
  · simp [getLsbD_setWidth, hi, hlow]
  · have hback : i - 8 < 8 := by omega
    have hplace : 8 + (i - 8) = i := by omega
    simp [getLsbD_setWidth, hi, hlow, hback, hplace]

end TopFirst

section BottomFirst

variable {table : BitVec 8 → BitVec 32}

def bottomFirst (table : BitVec 8 → BitVec 32) (byte : BitVec 8) (crc : BitVec 32) : BitVec 32 :=
  table ((crc ^^^ byte.setWidth 32).setWidth 8) ^^^ (crc >>> 8)

def residue (table : BitVec 8 → BitVec 32) : BitVec 32 :=
  [255, 255, 255, 255].foldl (fun crc byte => bottomFirst table byte crc) 0

def lowBytes : ℕ → BitVec 32 → List (BitVec 8)
  | 0, _ => []
  | n + 1, crc => crc.setWidth 8 :: lowBytes n (crc >>> 8)

theorem bottomFirst_complement {byte : BitVec 8} {crc rest : BitVec 32}
    (hbyte : byte = ~~~crc.setWidth 8) :
    bottomFirst table byte (crc ^^^ rest) = (crc >>> 8) ^^^ bottomFirst table 255 rest := by
  have hindex : (crc ^^^ rest ^^^ byte.setWidth 32).setWidth 8 =
      (rest ^^^ (255 : BitVec 8).setWidth 32).setWidth 8 := by
    apply eq_of_getLsbD_eq
    intro i hi
    have hwide : i < 32 := by omega
    have hones : (255 : BitVec 8).getLsbD i = true := by
      have hall : (255 : BitVec 8) = allOnes 8 := rfl
      rw [hall, getLsbD_allOnes, decide_eq_true hi]
    simp only [hbyte, getLsbD_setWidth, getLsbD_xor, getLsbD_not, hi, hwide,
      hones, decide_true, Bool.true_and]
    cases crc.getLsbD i <;> cases rest.getLsbD i <;> rfl
  rw [bottomFirst, hindex, ushiftRight_xor_distrib, bottomFirst, ← BitVec.xor_assoc,
    ← BitVec.xor_assoc, BitVec.xor_comm (crc >>> 8)]

theorem setWidth_not_shift (crc : BitVec 32) {n : ℕ} (hn : n + 8 ≤ 32) :
    ((~~~crc) >>> n).setWidth 8 = ~~~((crc >>> n).setWidth 8) := by
  apply eq_of_getLsbD_eq
  intro i hi
  have hin : n + i < 32 := by omega
  simp [getLsbD_ushiftRight, hi, hin]

theorem foldl_lowBytes_complement (crc : BitVec 32) :
    (lowBytes 4 (~~~crc)).foldl (fun crc byte => bottomFirst table byte crc) crc =
      residue table := by
  have hstep : ∀ n rest, n + 8 ≤ 32 →
      bottomFirst table (((~~~crc) >>> n).setWidth 8) ((crc >>> n) ^^^ rest) =
        (crc >>> (n + 8)) ^^^ bottomFirst table 255 rest := by
    intro n rest hn
    rw [bottomFirst_complement (setWidth_not_shift crc hn), shiftRight_add]
  have hbytes : lowBytes 4 (~~~crc) = [((~~~crc) >>> 0).setWidth 8, ((~~~crc) >>> 8).setWidth 8,
      ((~~~crc) >>> 16).setWidth 8, ((~~~crc) >>> 24).setWidth 8] := by
    simp only [lowBytes, ← shiftRight_add, ushiftRight_zero]
  have hstart : crc = (crc >>> 0) ^^^ 0 := by simp
  rw [hbytes]
  conv_lhs => arg 2; rw [hstart]
  simp only [List.foldl_cons, List.foldl_nil]
  rw [hstep 0 _ (by decide), hstep 8 _ (by decide), hstep 16 _ (by decide),
    hstep 24 _ (by decide), ushiftRight_eq_zero (by decide), BitVec.zero_xor]
  rfl

end BottomFirst

section Serial

variable {w : ℕ} {shift : BitVec w → BitVec w} {out : BitVec w → Bool} {poly : BitVec w}

/-- The register moves by one place for each bit of the message and takes in the polynomial where
the bit that leaves it differs from that of the message. -/
def feed (shift : BitVec w → BitVec w) (out : BitVec w → Bool) (poly crc : BitVec w)
    (bit : Bool) : BitVec w :=
  shift crc ^^^ if out crc ^^ bit then poly else 0#w

def serial (shift : BitVec w → BitVec w) (out : BitVec w → Bool) (poly : BitVec w)
    (bits : List Bool) (crc : BitVec w) : BitVec w :=
  bits.foldl (feed shift out poly) crc

def highFirst (byte : BitVec 8) : List Bool := (List.range 8).map byte.getMsbD

def lowFirst (byte : BitVec 8) : List Bool := (List.range 8).map byte.getLsbD

theorem serial_xor (hshift : ∀ a b, shift (a ^^^ b) = shift a ^^^ shift b)
    (hout : ∀ a b, out (a ^^^ b) = (out a ^^ out b)) (bits : List Bool) (a b : BitVec w) :
    serial shift out poly bits (a ^^^ b) = serial shift out poly bits a ^^^
        serial shift out poly (List.replicate bits.length false) b := by
  induction bits generalizing a b with
  | nil => rfl
  | cons bit bits ih =>
    have hstep : feed shift out poly (a ^^^ b) bit =
        feed shift out poly a bit ^^^ feed shift out poly b false := by
      have hpoly : (if out (a ^^^ b) ^^ bit then poly else 0#w) =
          (if out a ^^ bit then poly else 0#w) ^^^ if out b ^^ false then poly else 0#w := by
        rw [hout]
        cases out a <;> cases out b <;> cases bit <;> simp
      rw [feed, feed, feed, hshift, hpoly]
      ac_rfl
    exact (congrArg (serial shift out poly bits) hstep).trans (ih _ _)

/-- The register only moves while the bits that leave it are those of the message. -/
theorem serial_own {bits : List Bool} {crc : BitVec w}
    (hown : ∀ i (hi : i < bits.length), out (shift^[i] crc) = bits[i]) :
    serial shift out poly bits crc = shift^[bits.length] crc := by
  induction bits generalizing crc with
  | nil => rfl
  | cons bit bits ih =>
    have hfirst : out crc = bit := hown 0 (Nat.succ_pos _)
    have hstep : feed shift out poly crc bit = shift crc := by
      simp [feed, hfirst]
    exact (congrArg (serial shift out poly bits) hstep).trans
      (ih fun i hi => hown (i + 1) (Nat.succ_lt_succ hi))

theorem serial_byte {head : BitVec 8} {place : BitVec 8 → BitVec w}
    {bits : BitVec 8 → List Bool} {table : BitVec 8 → BitVec w} {crc : BitVec w}
    (hshift : ∀ a b, shift (a ^^^ b) = shift a ^^^ shift b)
    (hout : ∀ a b, out (a ^^^ b) = (out a ^^ out b))
    (hplace : ∀ a b, place (a ^^^ b) = place a ^^^ place b)
    (hbits : ∀ b, (bits b).length = 8 ∧ serial shift out poly (bits b) (place b) = 0#w)
    (htable : ∀ b, serial shift out poly (List.replicate 8 false) (place b) = table b)
    (hsilent : ∀ i < 8, out (shift^[i] (crc ^^^ place head)) = false) (byte : BitVec 8) :
    serial shift out poly (bits byte) crc =
      table (head ^^^ byte) ^^^ shift^[8] (crc ^^^ place head) := by
  have hsplit : crc = (place byte ^^^ place (head ^^^ byte)) ^^^ (crc ^^^ place head) := by
    rw [hplace, BitVec.xor_comm (place head), ← BitVec.xor_assoc (place byte),
      BitVec.xor_self, BitVec.zero_xor, BitVec.xor_comm, BitVec.xor_assoc, BitVec.xor_self,
      BitVec.xor_zero]
  have hquiet : serial shift out poly (List.replicate 8 false) (crc ^^^ place head) =
      shift^[8] (crc ^^^ place head) :=
    serial_own fun i hi => by rw [hsilent i hi, List.getElem_replicate]
  conv_lhs => rw [hsplit]
  rw [serial_xor hshift hout, serial_xor hshift hout, (hbits byte).1, (hbits byte).2, htable,
    hquiet, BitVec.zero_xor]

theorem iterate_shiftLeft (crc : BitVec w) (n : ℕ) : (fun x : BitVec w => x <<< 1)^[n] crc = crc <<< n := by
  induction n with
  | zero => simp
  | succ n ih => rw [Function.iterate_succ_apply', ih, shiftLeft_add]

theorem iterate_shiftRight (crc : BitVec w) (n : ℕ) : (fun x : BitVec w => x >>> 1)^[n] crc = crc >>> n := by
  induction n with
  | zero => simp
  | succ n ih => rw [Function.iterate_succ_apply', ih, shiftRight_add]

end Serial

def serialHigh (poly : BitVec 16) (bits : List Bool) (crc : BitVec 16) : BitVec 16 :=
  serial (· <<< 1) BitVec.msb poly bits crc

def serialLow (poly : BitVec 32) (bits : List Bool) (crc : BitVec 32) : BitVec 32 :=
  serial (· >>> 1) (BitVec.getLsbD · 0) poly bits crc

/-- A table agrees with a function once its list is that of the function's values. -/
theorem table_entry {w : ℕ} {table : List ℕ} {f : BitVec 8 → BitVec w}
    (htable : table = (List.range 256).map fun n => (f (.ofNat 8 n)).toNat) (b : BitVec 8) :
    BitVec.ofNat w (table.getD b.toNat 0) = f b := by
  have hb : b.toNat < 256 := b.isLt
  simp [htable, List.getD_eq_getElem?_getD, hb]

theorem serialHigh_own (poly : BitVec 16) (b : BitVec 8) :
    serialHigh poly (highFirst b) (b.setWidth 16 <<< 8) = 0#16 := by
  have hlength : (highFirst b).length = 8 := by simp [highFirst]
  refine (serial_own fun i hi => ?_).trans ?_
  · have hi : i < 8 := hlength ▸ hi
    have hhigh : 15 - i - 8 = 7 - i := by omega
    simp [iterate_shiftLeft, highFirst, msb_eq_getLsbD_last, getMsbD, hi, hhigh]
    grind
  · rw [iterate_shiftLeft, ← shiftLeft_add, hlength]
    exact shiftLeft_eq_zero le_rfl

theorem serialLow_own (poly : BitVec 32) (b : BitVec 8) :
    serialLow poly (lowFirst b) (b.setWidth 32) = 0#32 := by
  have hlength : (lowFirst b).length = 8 := by simp [lowFirst]
  refine (serial_own fun i hi => ?_).trans ?_
  · simp [iterate_shiftRight, lowFirst]
    grind
  · rw [iterate_shiftRight, hlength]
    apply eq_of_getLsbD_eq
    intro i hi
    simp

theorem serialHigh_byte {table : BitVec 8 → BitVec 16} {poly : BitVec 16} (htable : ∀ b : BitVec 8,
      serialHigh poly (List.replicate 8 false) (b.setWidth 16 <<< 8) = table b)
    (crc : BitVec 16) (byte : BitVec 8) : serialHigh poly (highFirst byte) crc =
      table ((crc >>> 8).setWidth 8 ^^^ byte) ^^^ (crc <<< 8) := by
  have hrest : crc ^^^ ((crc >>> 8).setWidth 8).setWidth 16 <<< 8 =
      (crc.setWidth 8).setWidth 16 := by
    apply eq_of_getLsbD_eq
    intro i hi
    by_cases hlow : i < 8
    · simp [hi, hlow]
    · have hback : i - 8 < 8 := by omega
      have hplace : 8 + (i - 8) = i := by omega
      simp [hi, hlow, hback, hplace]
  have hmoved : (crc.setWidth 8).setWidth 16 <<< 8 = crc <<< 8 := by
    apply eq_of_getLsbD_eq
    intro i hi
    by_cases hlow : i < 8
    · simp [hlow]
    · have hback : i - 8 < 8 := by omega
      have hwide : i - 8 < 16 := by omega
      simpa [hi, hlow, hback] using getLsbD_eq_getElem hwide
  rw [← hmoved, ← hrest, ← iterate_shiftLeft]
  refine serial_byte (fun a b => shiftLeft_xor_distrib a b 1)
    (fun a b => msb_xor) (fun a b => ?_) (fun b => ⟨rfl, serialHigh_own poly b⟩)
    htable (fun i hi => ?_) byte
  · rw [setWidth_xor, shiftLeft_xor_distrib]
  · have hhigh : ¬15 - i < 8 := by omega
    rw [hrest, iterate_shiftLeft]
    simp [msb_eq_getLsbD_last, hhigh]

theorem serialLow_byte {table : BitVec 8 → BitVec 32} {poly : BitVec 32} (htable : ∀ b : BitVec 8,
      serialLow poly (List.replicate 8 false) (b.setWidth 32) = table b) (crc : BitVec 32) (byte : BitVec 8) :
    serialLow poly (lowFirst byte) crc = bottomFirst table byte crc := by
  have hmoved : (crc ^^^ (crc.setWidth 8).setWidth 32) >>> 8 = crc >>> 8 := by
    apply eq_of_getLsbD_eq
    intro i hi
    simp
  have hindex : (crc ^^^ byte.setWidth 32).setWidth 8 = crc.setWidth 8 ^^^ byte := by
    simp [setWidth_xor]
  rw [bottomFirst, hindex, ← hmoved, ← iterate_shiftRight]
  refine serial_byte (fun a b => ushiftRight_xor_distrib a b 1)
    (fun a b => BitVec.getLsbD_xor) (fun a b => BitVec.setWidth_xor) (fun b => ⟨rfl, serialLow_own poly b⟩)
    htable (fun i hi => ?_) byte
  have hwide : i < 32 := by omega
  rw [iterate_shiftRight]
  simp [hi, hwide]

def directHigh (table : BitVec 8 → BitVec 16) (crc : BitVec 16) (byte : BitVec 8) : BitVec 16 :=
  (crc <<< 8) ^^^ table ((crc >>> 8).setWidth 8 ^^^ byte)

theorem topFirst_flush_step {table : BitVec 8 → BitVec 16} (byte : BitVec 8) (crc : BitVec 16) :
    topFirst table 0 (topFirst table 0 (topFirst table byte crc)) =
      directHigh table (topFirst table 0 (topFirst table 0 crc)) byte := by
  rw [topFirst_eq_xor byte crc]
  generalize topFirst table 0 crc = y
  have hlow : topFirst table 0 (y ^^^ byte.setWidth 16) =
      topFirst table 0 y ^^^ (byte.setWidth 16 <<< 8) := by
    have hindex : ((y ^^^ byte.setWidth 16) >>> 8).setWidth 8 = (y >>> 8).setWidth 8 := by
      apply BitVec.eq_of_getLsbD_eq
      intro i hi
      simp
    simp only [topFirst, hindex, shiftLeft_xor_distrib]
    ac_rfl
  have hhigh : ((byte.setWidth 16 <<< 8) >>> 8).setWidth 8 = byte := by
    apply eq_of_getLsbD_eq
    intro i hi
    have hwide : 8 + i < 16 := by omega
    simp [hi, hwide]
  have hgone : byte.setWidth 16 <<< 8 <<< 8 = 0#16 := by
    rw [← shiftLeft_add]
    exact shiftLeft_eq_zero (by decide)
  rw [hlow, topFirst, directHigh]
  generalize topFirst table 0 y = z
  rw [ushiftRight_xor_distrib, setWidth_xor, hhigh, shiftLeft_xor_distrib,
    hgone]
  simp [BitVec.xor_comm]

end RtThread.TableCrc
