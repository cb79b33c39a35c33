import Mathlib.Tactic

/-!
# Circular buffers

The unread items of a circular buffer are a window of its slots which may run
round the end.  Writing the slot behind the window extends it, moving its start
past the first slot removes the first item, and a block is written in at most two
contiguous pieces.
-/

namespace RtThread.CircularBuffer

open Function List

variable {α : Type*} {slots slots' : ℕ → α} {n start len i j : ℕ}

def window (slots : ℕ → α) (n start len : ℕ) : List α :=
  (List.range len).map fun i => slots ((start + i) % n)

def blit (slots : ℕ → α) (base : ℕ) (block : List α) : ℕ → α :=
  fun i => if base ≤ i then (block[i - base]?).getD (slots i) else slots i

def blitRound (slots : ℕ → α) (n base : ℕ) (block : List α) : ℕ → α :=
  blit (blit slots base (block.take (n - base))) 0 (block.drop (n - base))

def slice (slots : ℕ → α) (start len : ℕ) : List α :=
  (List.range len).map fun i => slots (start + i)

@[simp] theorem window_zero (slots : ℕ → α) (n start : ℕ) : window slots n start 0 = [] := rfl

@[simp] theorem length_window (slots : ℕ → α) (n start len : ℕ) :
    (window slots n start len).length = len := by
  simp [window]

theorem window_add (slots : ℕ → α) (n start len more : ℕ) : window slots n start (len + more) =
      window slots n start len ++ window slots n (start + len) more := by
  simp [window, range_add, comp_def, Nat.add_assoc]

theorem window_succ (slots : ℕ → α) (n start len : ℕ) : window slots n start (len + 1) =
      window slots n start len ++ [slots ((start + len) % n)] := by
  simp [window, range_succ]

theorem window_cons (slots : ℕ → α) (n start len : ℕ) : window slots n start (len + 1) =
      slots (start % n) :: window slots n (start + 1) len := by
  rw [Nat.add_comm len 1, window_add]
  simp [window]

@[simp] theorem window_mod (slots : ℕ → α) (n start len : ℕ) :
    window slots n (start % n) len = window slots n start len := by
  simp [window]

theorem window_congr (hagree : ∀ i < len, slots' ((start + i) % n) = slots ((start + i) % n)) :
    window slots' n start len = window slots n start len := by
  apply map_congr_left
  intro i hi
  exact hagree i (mem_range.mp hi)

theorem take_window (hle : i ≤ len) :
    (window slots n start len).take i = window slots n start i := by
  obtain ⟨more, rfl⟩ := Nat.exists_eq_add_of_le hle
  rw [window_add, take_left' (length_window _ _ _ _)]

theorem drop_window (hle : i ≤ len) :
    (window slots n start len).drop i = window slots n (start + i) (len - i) := by
  obtain ⟨more, rfl⟩ := Nat.exists_eq_add_of_le hle
  rw [window_add, drop_left' (length_window _ _ _ _), Nat.add_sub_cancel_left]

theorem window_of_le (hend : start + len ≤ n) :
    window slots n start len = slice slots start len := by
  apply map_congr_left
  intro i hi
  have hlt : i < len := mem_range.mp hi
  rw [Nat.mod_eq_of_lt (by omega)]

theorem window_of_ge (hstart : start ≤ n) (hround : n ≤ start + len) (hlen : len ≤ n) :
    window slots n start len =
      slice slots start (n - start) ++ slice slots 0 (len - (n - start)) := by
  obtain ⟨more, hmore⟩ := Nat.exists_eq_add_of_le (by omega : n - start ≤ len)
  rw [hmore, window_add, window_of_le (by omega), ← window_mod _ _ (start + (n - start)),
    Nat.add_sub_of_le hstart, Nat.mod_self, window_of_le (by omega), Nat.add_sub_cancel_left]

theorem mod_ne (hij : i < j) (hround : j < i + n) : (start + i) % n ≠ (start + j) % n := by
  intro heq
  have hdvd : n ∣ start + j - (start + i) := (Nat.modEq_iff_dvd' (by lia)).mp heq
  have hle : n ≤ start + j - (start + i) := Nat.le_of_dvd (by lia) hdvd
  lia

theorem next_eq_mod (hi : i < n) : (if n ≤ i + 1 then 0 else i + 1) = (i + 1) % n := by
  split_ifs with hend
  · have heq : i + 1 = n := by omega
    rw [heq, Nat.mod_self]
  · rw [Nat.mod_eq_of_lt (by omega)]

theorem mod_add_of_lt {base offset : ℕ} (hbase : base = start % n) (hend : base + offset < n) :
    (start + offset) % n = base + offset := by
  rw [← Nat.mod_add_mod, ← hbase, Nat.mod_eq_of_lt hend]

/-- Writing behind the window appends to it. -/
theorem window_push (hroom : len < n) (value : α) :
    window (update slots ((start + len) % n) value) n start (len + 1) =
      window slots n start len ++ [value] := by
  rw [window_succ, update_self]
  congr 1
  apply window_congr
  intro i hi
  exact update_of_ne (mod_ne hi (by omega)) _ _

theorem blit_of_lt {base : ℕ} {block : List α} (hlt : i < base) :
    blit slots base block i = slots i := by
  rw [blit, if_neg (by omega)]

theorem blit_of_le {base : ℕ} {block : List α} (hle : base + block.length ≤ i) :
    blit slots base block i = slots i := by
  rw [blit, if_pos (by omega), getElem?_eq_none (by omega), Option.getD_none]

theorem blit_add {base : ℕ} {block : List α} (hi : i < block.length) :
    blit slots base block (base + i) = block[i] := by
  rw [blit, if_pos (by omega), Nat.add_sub_cancel_left, getElem?_eq_getElem hi,
    Option.getD_some]

theorem window_blit {base : ℕ} {block : List α} (hbase : base = (start + len) % n)
    (hroom : len + block.length ≤ n) (hend : base + block.length ≤ n) :
    window (blit slots base block) n start (len + block.length) =
      window slots n start len ++ block := by
  rw [window_add]
  have hold : window (blit slots base block) n start len = window slots n start len := by
    apply window_congr
    intro i hi
    by_cases hlow : (start + i) % n < base
    · exact blit_of_lt hlow
    · apply blit_of_le
      by_contra hhigh
      obtain ⟨offset, hoffset⟩ := Nat.exists_eq_add_of_le (Nat.le_of_not_lt hlow)
      have hinside : (start + len + offset) % n = base + offset := mod_add_of_lt hbase (by lia)
      rw [← hoffset, Nat.add_assoc] at hinside
      exact mod_ne (by lia) (by lia) hinside.symm
  have hnew : window (blit slots base block) n (start + len) block.length = block := by
    rw [← window_mod, ← hbase, window_of_le hend]
    apply ext_getElem
    · simp [slice]
    · intro i hi hblock
      simp only [slice]
      rw [getElem_map, getElem_range, blit_add hblock]
  rw [hold, hnew]

@[simp] theorem blit_nil (slots : ℕ → α) (base : ℕ) : blit slots base [] = slots := by
  funext i
  simp [blit]

theorem blit_singleton (slots : ℕ → α) (base : ℕ) (value : α) :
    blit slots base [value] = update slots base value := by
  funext i
  by_cases hi : i = base
  · simp [blit, hi]
  · rw [update_of_ne hi]
    by_cases hlow : i < base
    · exact blit_of_lt hlow
    · exact blit_of_le (by rw [length_singleton]; omega)

theorem blitRound_of_le {base : ℕ} {block : List α} (hend : base + block.length ≤ n) :
    blitRound slots n base block = blit slots base block := by
  have hle : block.length ≤ n - base := by omega
  rw [blitRound, take_of_length_le hle, drop_eq_nil_of_le hle, blit_nil]

/-- A block written in two parts around the end is one block of the window. -/
theorem window_blitRound {base : ℕ} {block : List α} (hn : 0 < n) (hbase : base = (start + len) % n)
    (hroom : len + block.length ≤ n) :
    window (blitRound slots n base block) n start (len + block.length) =
      window slots n start len ++ block := by
  by_cases hend : base + block.length ≤ n
  · rw [blitRound_of_le hend]
    exact window_blit hbase hroom hend
  have hlt : base < n := hbase ▸ Nat.mod_lt _ hn
  have hfirst : (block.take (n - base)).length = n - base := by
    rw [length_take]
    lia
  have hrest : (block.drop (n - base)).length = block.length - (n - base) := length_drop
  have hzero : 0 = (start + (len + (n - base))) % n := by
    rw [← Nat.add_assoc, ← Nat.mod_add_mod, ← hbase, Nat.add_sub_of_le hlt.le, Nat.mod_self]
  have hone : window (blit slots base (block.take (n - base))) n start
      (len + (block.take (n - base)).length) =
      window slots n start len ++ block.take (n - base) :=
    window_blit hbase (by lia) (by lia)
  have htwo : window (blitRound slots n base block) n start
      (len + (n - base) + (block.drop (n - base)).length) =
      window (blit slots base (block.take (n - base))) n start (len + (n - base)) ++
        block.drop (n - base) :=
    window_blit hzero (by lia) (by lia)
  rw [hfirst] at hone
  rw [hrest, hone, append_assoc, take_append_drop] at htwo
  have hlength : len + (n - base) + (block.length - (n - base)) = len + block.length := by lia
  rw [hlength] at htwo
  exact htwo

end RtThread.CircularBuffer
