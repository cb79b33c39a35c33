import RtThread.WordArith

/-!
# Sinks for characters

A printing program puts one character after the other into a sink, and may ask whether
the next one fits.  What it puts is a text, whatever the sink is.  A window is the sink
behind a C buffer: a pointer which goes on for every character, and a last byte behind
which nothing is stored.
-/

namespace RtThread

open List Word

structure Sink (σ : Type) where
  fits : σ → Bool
  put : σ → Char → σ

namespace Sink

variable {σ : Type} (k : Sink σ) (o : σ) (c : Char)

def puts (text : List Char) : σ := text.foldl k.put o

@[simp]
theorem puts_nil : k.puts o [] = o := rfl

@[simp]
theorem puts_append (text text' : List Char) :
    k.puts o (text ++ text') = k.puts (k.puts o text) text' :=
  foldl_append

@[simp]
theorem puts_cons (text : List Char) : k.puts o (c :: text) = k.puts (k.put o c) text := rfl

def fill (o : σ) (c : Char) : ℕ → σ
  | 0 => o
  | n + 1 => fill (k.put o c) c n

theorem fill_eq (n : ℕ) : k.fill o c n = k.puts o (List.replicate n c) := by
  induction n generalizing o with
  | zero => rfl
  | succ n ih => exact ih (k.put o c)

/-- The loop `while (bound < n--)`, and `n` behind it. -/
def countDown (bound n : ℤ) : σ × ℤ := (k.fill o c (n - bound).toNat, min n bound - 1)

/-- The loop `while (--n > 0)`, and `n` behind it. -/
def preCountDown (n : ℤ) : σ × ℤ := (k.fill o c (n - 1).toNat, min (n - 1) 0)

end Sink

def textSink : Sink (List Char) where
  fits _ := true
  put text c := text ++ [c]

theorem textSink_puts (text text' : List Char) : textSink.puts text text' = text ++ text' := by
  induction text' generalizing text with
  | nil => exact (append_nil text).symm
  | cons c text' ih =>
    rw [Sink.puts_cons, ih]
    exact append_assoc text [c] text'

structure Window where
  str : ℕ
  mem : ℕ → Char

/-- `if (str <= last) *str = c; ++ str;` with a pointer of 32 bits. -/
def windowSink (last : ℕ) : Sink Window where
  fits w := decide (w.str ≤ last)
  put w c :=
    { str := add32 w.str 1
      mem := if w.str ≤ last then Function.update w.mem w.str c else w.mem }

section Windows

variable {last buf : ℕ} {mem : ℕ → Char} {text : List Char}

theorem windowSink_put_mem (w : Window) (c : Char) (a : ℕ) :
    ((windowSink last).put w c).mem a = if a = w.str ∧ a ≤ last then c else w.mem a := by
  unfold windowSink
  by_cases hfits : w.str ≤ last
  · by_cases ha : a = w.str
    · simp [ha, hfits]
    · simp [ha, hfits]
  · have hout : ¬(a = w.str ∧ a ≤ last) := fun h => hfits (h.1 ▸ h.2)
    simp [hfits, hout]

theorem windowSink_puts_str (hbuf : buf < 4294967296) :
    ((windowSink last).puts ⟨buf, mem⟩ text).str = add32 buf text.length := by
  induction text generalizing buf mem with
  | nil => exact (add32_eq_of_lt (y := 0) hbuf).symm
  | cons c text ih =>
    rw [Sink.puts_cons]
    refine (ih (add32_lt buf 1)).trans ?_
    rw [length_cons]
    unfold add32
    omega

theorem windowSink_puts_mem (hbuf : buf < 4294967296) (hlength : text.length ≤ 4294967296)
    {a : ℕ} (ha : a < 4294967296) : ((windowSink last).puts ⟨buf, mem⟩ text).mem a =
      if a ≤ last then (text[sub32 a buf]?).getD (mem a) else mem a := by
  induction text using reverseRecOn with
  | nil => simp
  | append_singleton text c ih =>
    rw [length_append, length_singleton] at hlength
    have hplace : a = add32 buf text.length ↔ sub32 a buf = text.length := by
      unfold add32 sub32
      lia
    rw [Sink.puts_append, Sink.puts_cons, Sink.puts_nil, windowSink_put_mem,
      windowSink_puts_str hbuf, ih (by lia)]
    simp only [hplace]
    by_cases hlast : a ≤ last
    · by_cases heq : sub32 a buf = text.length
      · simp [hlast, heq]
      · rw [if_neg (fun h => heq h.1), if_pos hlast, if_pos hlast]
        rcases Nat.lt_or_gt_of_ne heq with hlt | hgt
        · rw [getElem?_append_left hlt]
        · rw [getElem?_eq_none hgt.le, getElem?_eq_none]
          rw [length_append, length_singleton]
          exact hgt
    · simp [hlast]

end Windows

end RtThread
