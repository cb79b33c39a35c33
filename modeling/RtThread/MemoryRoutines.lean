import RtThread.ShellModel

/-!
# Setting and copying memory a word at a time

`rt_memset` and `rt_memcpy` take four words at a time, then single words and then
the bytes that are left, when the areas begin at word boundaries.  The pointers
are the beginnings of the areas and a common distance from them; the areas do not
run over the end of the address space.
-/

namespace RtThread.Kservice

open Function

open Shell (Byte copyUp copyUp_apply rtMemmove rtMemmove_apply)

abbrev Memory := ℕ → Byte

def loadWord (m : Memory) (addr : ℕ) : BitVec 32 :=
  BitVec.ofNat 32 ((m addr).toNat + 256 * (m (addr + 1)).toNat + 65536 * (m (addr + 2)).toNat +
    16777216 * (m (addr + 3)).toNat)

def storeWord (addr : ℕ) (value : BitVec 32) (m : Memory) : Memory := fun x =>
  if addr ≤ x ∧ x < addr + 4 then (value >>> (8 * (x - addr))).setWidth 8 else m x

def unaligned (addr : ℕ) : Bool := addr % 4 ≠ 0

/-- `while (count >= width) { body; count -= width; }`, from the distance `i` on. -/
def strides (width : ℕ) (body : ℕ → Memory → Memory) (i count : ℕ) (m : Memory) : ℕ × ℕ × Memory :=
  if 0 < width ∧ width ≤ count then strides width body (i + width) (count - width) (body i m)
  else (i, count, m)
termination_by count

/-- `while (count--)` -/
def bytewise (body : ℕ → Memory → Memory) (i count : ℕ) (m : Memory) : Memory :=
  (strides 1 body i count m).2.2

def wordwise (word byte : ℕ → Memory → Memory) (count : ℕ) (m : Memory) : Memory :=
  let (i, count, m) := strides 16
    (fun i m => word (i + 12) (word (i + 8) (word (i + 4) (word i m)))) 0 count m
  let (i, count, m) := strides 4 word i count m
  bytewise byte i count m

def rtMemset (s : ℕ) (c : BitVec 32) (count : ℕ) (m : Memory) : Memory :=
  let d := c &&& 0xff
  let byte := fun i m => update m (s + i) (d.setWidth 8)
  if ¬count < 4 ∧ ¬unaligned s then
    let buffer := (d <<< 8) ||| d
    let buffer := buffer ||| (buffer <<< 16)
    wordwise (fun i m => storeWord (s + i) buffer m) byte count m
  else bytewise byte 0 count m

/-- For counts below `2^31`, which `int len` keeps. -/
def rtMemcpy (dst src count : ℕ) (m : Memory) : Memory :=
  let byte := fun i m => update m (dst + i) (m (src + i))
  if ¬count < 16 ∧ ¬(unaligned src || unaligned dst) then
    wordwise (fun i m => storeWord (dst + i) (loadWord m (src + i)) m) byte count m
  else bytewise byte 0 count m

def replaced (addr count : ℕ) (bytes : ℕ → Byte) (m : Memory) : Memory := fun x =>
  if addr ≤ x ∧ x < addr + count then bytes (x - addr) else m x

variable {m : Memory} {dst src count : ℕ}

theorem strides_eq (stage : ℕ → Memory) (body : ℕ → Memory → Memory) {width : ℕ}
    (hwidth : 0 < width) (hbody : ∀ i, i + width ≤ count → body i (stage i) = stage (i + width)) {i : ℕ}
    (hi : i ≤ count) : ∃ j ≤ count, count - j < width ∧
      strides width body i (count - i) (stage i) = (j, count - j, stage j) := by
  induction hleft : count - i using Nat.strong_induction_on generalizing i with
  | _ left ih =>
    rw [strides]
    split_ifs with hmore
    · rcases ih (left - width) (by omega) (i := i + width) (by omega) (by omega)
        with ⟨j, hj, hrest, heq⟩
      refine ⟨j, hj, hrest, ?_⟩
      rw [hbody i (by omega), ← heq]
    · exact ⟨i, hi, by omega, by rw [← hleft]⟩

theorem bytewise_eq (stage : ℕ → Memory) (byte : ℕ → Memory → Memory)
    (hbyte : ∀ i < count, byte i (stage i) = stage (i + 1)) {i : ℕ} (hi : i ≤ count) :
    bytewise byte i (count - i) (stage i) = stage count := by
  rcases strides_eq stage byte Nat.one_pos (fun i hi => hbyte i hi) hi with ⟨j, hj, hrest, heq⟩
  have hend : j = count := by omega
  rw [bytewise, heq, hend]

theorem wordwise_eq (stage : ℕ → Memory) (word byte : ℕ → Memory → Memory)
    (hword : ∀ i, i + 4 ≤ count → word i (stage i) = stage (i + 4))
    (hbyte : ∀ i < count, byte i (stage i) = stage (i + 1)) :
    wordwise word byte count (stage 0) = stage count := by
  have hfour : ∀ i, i + 16 ≤ count →
      word (i + 12) (word (i + 8) (word (i + 4) (word i (stage i)))) = stage (i + 16) := by
    intro i hi
    rw [hword i (by omega), hword (i + 4) (by omega), hword (i + 8) (by omega),
      hword (i + 12) (by omega)]
  have hsixteen : 0 < 16 := by decide
  have hfourth : 0 < 4 := by decide
  rcases strides_eq stage
      (fun i m => word (i + 12) (word (i + 8) (word (i + 4) (word i m)))) hsixteen hfour (Nat.zero_le count) with ⟨i, hi, -, hblocks⟩
  rcases strides_eq stage word hfourth hword hi with ⟨j, hj, -, hwords⟩
  rw [Nat.sub_zero] at hblocks
  unfold wordwise
  simp only [hblocks, hwords]
  exact bytewise_eq stage byte hbyte hj

theorem update_replaced {bytes : ℕ → Byte} (i : ℕ) :
    update (replaced dst i bytes m) (dst + i) (bytes i) =
      replaced dst (i + 1) bytes m := by
  funext x
  by_cases hx : x = dst + i
  · have hin : dst ≤ dst + i ∧ dst + i < dst + (i + 1) := by omega
    rw [hx, update_self, replaced, if_pos hin, Nat.add_sub_cancel_left]
  · have hsame : (dst ≤ x ∧ x < dst + i) ↔ (dst ≤ x ∧ x < dst + (i + 1)) := by omega
    rw [update_of_ne hx, replaced, replaced, if_congr hsame rfl rfl]

theorem storeWord_replaced {bytes : ℕ → Byte} {value : BitVec 32} (i : ℕ)
    (hvalue : ∀ k < 4, (value >>> (8 * k)).setWidth 8 = bytes (i + k)) :
    storeWord (dst + i) value (replaced dst i bytes m) = replaced dst (i + 4) bytes m := by
  funext x
  unfold storeWord replaced
  by_cases hin : dst + i ≤ x ∧ x < dst + i + 4
  · have hplace : i + (x - (dst + i)) = x - dst := by omega
    rw [if_pos hin, if_pos (by omega), hvalue _ (by omega), hplace]
  · have hsame : (dst ≤ x ∧ x < dst + i) ↔ (dst ≤ x ∧ x < dst + (i + 4)) := by omega
    rw [if_neg hin, if_congr hsame rfl rfl]

theorem byte_buffer (d : BitVec 8) : ∀ k < 4, ((((d.setWidth 32 <<< 8) ||| d.setWidth 32) |||
      (((d.setWidth 32 <<< 8) ||| d.setWidth 32) <<< 16)) >>> (8 * k)).setWidth 8 = d := by
  intro k hk
  interval_cases k <;> ext i hi <;> simp [BitVec.getElem_setWidth, hi] <;> grind

theorem replaced_zero (addr : ℕ) (bytes : ℕ → Byte) (m : Memory) : replaced addr 0 bytes m = m := by
  funext x
  exact if_neg (by omega)

theorem and_255 (c : BitVec 32) : c &&& 0xff = (c.setWidth 8).setWidth 32 := by
  apply BitVec.eq_of_getLsbD_eq
  intro i hi
  have hmask : (0xff : BitVec 32).getLsbD i = decide (i < 8) := by
    revert i
    decide
  rw [BitVec.getLsbD_and, hmask]
  simp only [BitVec.getLsbD_setWidth, hi, decide_true, Bool.true_and]
  exact Bool.and_comm _ _

theorem rtMemset_eq (s : ℕ) (c : BitVec 32) (count : ℕ) (m : Memory) :
    rtMemset s c count m = replaced s count (fun _ => (c &&& 0xff).setWidth 8) m := by
  have hbyte : ∀ i < count, update
      (replaced s i (fun _ => (c &&& 0xff).setWidth 8) m) (s + i) ((c &&& 0xff).setWidth 8) =
        replaced s (i + 1) (fun _ => (c &&& 0xff).setWidth 8) m := fun i _ => update_replaced i
  have hstart := replaced_zero s (fun _ => (c &&& 0xff).setWidth 8) m
  unfold rtMemset
  conv_lhs => rw [← hstart]
  split_ifs
  · apply wordwise_eq (fun i => replaced s i (fun _ => (c &&& 0xff).setWidth 8) m) _ _ _ hbyte
    intro i _
    apply storeWord_replaced
    intro k hk
    rw [and_255, byte_buffer _ k hk]
    simp
  · exact bytewise_eq (fun i => replaced s i (fun _ => (c &&& 0xff).setWidth 8) m) _ hbyte
      (Nat.zero_le count)

theorem byte_loadWord (m : Memory) (addr : ℕ) :
    ∀ k < 4, (loadWord m addr >>> (8 * k)).setWidth 8 = m (addr + k) := by
  intro k hk
  apply BitVec.eq_of_toNat_eq
  rw [BitVec.toNat_setWidth, BitVec.toNat_ushiftRight, Nat.shiftRight_eq_div_pow, loadWord,
    BitVec.toNat_ofNat]
  interval_cases k <;> norm_num <;> omega

theorem rtMemcpy_eq (hapart : dst + count ≤ src ∨ src + count ≤ dst) (m : Memory) :
    rtMemcpy dst src count m = replaced dst count (fun i => m (src + i)) m := by
  have hsource : ∀ i j, i ≤ count → j < count →
      replaced dst i (fun i => m (src + i)) m (src + j) = m (src + j) := by
    intro i j hi hj
    exact if_neg (by omega)
  have hbyte : ∀ i < count, update (replaced dst i (fun i => m (src + i)) m) (dst + i)
      (replaced dst i (fun i => m (src + i)) m (src + i)) =
        replaced dst (i + 1) (fun i => m (src + i)) m := by
    intro i hi
    rw [hsource i i hi.le hi]
    exact update_replaced i
  have hstart := replaced_zero dst (fun i => m (src + i)) m
  unfold rtMemcpy
  conv_lhs => rw [← hstart]
  split_ifs
  · apply wordwise_eq (fun i => replaced dst i (fun i => m (src + i)) m) _ _ _ hbyte
    intro i hi
    apply storeWord_replaced
    intro k hk
    rw [byte_loadWord _ _ k hk, Nat.add_assoc, hsource i (i + k) (by omega) (by omega)]
  · exact bytewise_eq (fun i => replaced dst i (fun i => m (src + i)) m) _ hbyte (Nat.zero_le count)

/-- The routines replace the bytes of their destination, and no others, by what the byte loops put
there. -/
theorem memory_routines (m : Memory) : (∀ s c count, rtMemset s c count m =
      replaced s count (fun _ => (c &&& 0xff).setWidth 8) m) ∧
    (∀ dst src count, dst + count ≤ src ∨ src + count ≤ dst →
      rtMemcpy dst src count m = copyUp count dst src m ∧
      rtMemcpy dst src count m = replaced dst count (fun i => m (src + i)) m) ∧
    ∀ dest src n, rtMemmove dest src n m = replaced dest n (fun i => m (src + i)) m := by
  refine ⟨fun s c count => rtMemset_eq s c count m, fun dst src count hapart => ?_,
    fun dest src n => ?_⟩
  · have hcopy : copyUp count dst src m = replaced dst count (fun i => m (src + i)) m := by
      funext x
      exact copyUp_apply (by omega) m x
    rw [hcopy]
    exact ⟨rtMemcpy_eq hapart m, rtMemcpy_eq hapart m⟩
  · funext x
    exact rtMemmove_apply dest src n m x

theorem memory_routines_sample :
    rtMemcpy 0x20000000 0x20000100 23 (fun x => BitVec.ofNat 8 x) =
      copyUp 23 0x20000000 0x20000100 fun x => BitVec.ofNat 8 x :=
  ((memory_routines _).2.1 _ _ _ (.inl (by decide))).1

end RtThread.Kservice
