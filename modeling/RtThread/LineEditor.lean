import Mathlib.Data.List.GetD
import Mathlib.Data.List.InsertIdx
import Mathlib.Tactic

/-!
# A line editor

The text of a line and a cursor in it, with the lines submitted before.  The
characters may be anything; what happens to a character for a full line is a
parameter.
-/

namespace RtThread

open List

variable {α : Type*}

/-- A line editor with a history, over any characters. -/
structure Editor (α : Type*) where
  text : List α
  cursor : ℕ
  /-- The lines submitted before, the last one at the end. -/
  history : List (List α)
  /-- The line of the history recalled last, or the number of them. -/
  current : ℕ

inductive Key (α : Type*)
  | char (a : α)
  | delete | left | right | earlier | later | enter

namespace Editor

def empty : Editor α where
  text := []
  cursor := 0
  history := []
  current := 0

def insert (a : α) (e : Editor α) : Editor α :=
  { e with text := e.text.insertIdx e.cursor a, cursor := e.cursor + 1 }

def delete (e : Editor α) : Editor α :=
  if e.cursor = 0 then e
  else { e with text := e.text.eraseIdx (e.cursor - 1), cursor := e.cursor - 1 }

def left (e : Editor α) : Editor α := { e with cursor := e.cursor - 1 }

def right (e : Editor α) : Editor α :=
  if e.cursor < e.text.length then { e with cursor := e.cursor + 1 } else e

def bringBack (k : ℕ) (e : Editor α) : Editor α :=
  { e with text := e.history.getD k [], cursor := (e.history.getD k []).length, current := k }

def earlier (e : Editor α) : Editor α :=
  if e.current = 0 then e else e.bringBack (e.current - 1)

def later (e : Editor α) : Editor α :=
  if e.history = [] then e else e.bringBack (min (e.current + 1) (e.history.length - 1))

def remember (lines : ℕ) (text : List α) (history : List (List α)) : List (List α) :=
  if text.length = 0 then history
  else if lines ≤ history.length then history.tail ++ [text] else history ++ [text]

def submit (lines : ℕ) (e : Editor α) : Editor α where
  text := []
  cursor := 0
  history := remember lines e.text e.history
  current := (remember lines e.text e.history).length

def press (lines room : ℕ) (overlong : α → Editor α → Editor α) (e : Editor α) : Key α → Editor α
  | .char a => if e.text.length < room then e.insert a else overlong a e
  | .delete => e.delete
  | .left => e.left
  | .right => e.right
  | .earlier => e.earlier
  | .later => e.later
  | .enter => e.submit lines

structure WellFormed (lines room : ℕ) (e : Editor α) : Prop where
  cursor_le : e.cursor ≤ e.text.length
  text_le : e.text.length ≤ room
  history_le : e.history.length ≤ lines
  current_le : e.current ≤ e.history.length
  line_le : ∀ line ∈ e.history, line.length ≤ room

section WellFormed

variable {lines room k : ℕ} {a : α} {e : Editor α}

theorem wellFormed_empty : WellFormed lines room (empty : Editor α) where
  cursor_le := le_rfl
  text_le := Nat.zero_le _
  history_le := Nat.zero_le _
  current_le := le_rfl
  line_le := by simp [empty]

section

variable (he : WellFormed lines room e)
include he

theorem length_insert : (e.insert a).text.length = e.text.length + 1 :=
  length_insertIdx_of_le_length he.cursor_le _

theorem WellFormed.insert (hroom : e.text.length < room) : WellFormed lines room (e.insert a) := by
  have hlength : (e.insert a).text.length = e.text.length + 1 := length_insert he
  constructor
  · rw [hlength]
    exact Nat.succ_le_succ he.cursor_le
  · rw [hlength]
    exact hroom
  · exact he.history_le
  · exact he.current_le
  · exact he.line_le

theorem length_delete (hcursor : e.cursor ≠ 0) : e.delete.text.length = e.text.length - 1 := by
  have hlt : e.cursor - 1 < e.text.length := by
    have hle := he.cursor_le
    omega
  rw [delete, if_neg hcursor]
  exact length_eraseIdx_of_lt hlt

theorem WellFormed.delete : WellFormed lines room e.delete := by
  by_cases hcursor : e.cursor = 0
  · rw [Editor.delete, if_pos hcursor]
    exact he
  · have hlength := length_delete he hcursor
    have hle := he.cursor_le
    have hroom := he.text_le
    rw [Editor.delete, if_neg hcursor] at hlength ⊢
    constructor
    · rw [hlength]
      dsimp only
      omega
    · rw [hlength]
      omega
    · exact he.history_le
    · exact he.current_le
    · exact he.line_le

theorem WellFormed.left : WellFormed lines room e.left :=
  { he with cursor_le := (Nat.sub_le _ _).trans he.cursor_le }

theorem WellFormed.right : WellFormed lines room e.right := by
  unfold Editor.right
  split
  · rename_i hlt
    exact { he with cursor_le := hlt }
  · exact he

end

theorem mem_history (hk : k < e.history.length) : e.history.getD k [] ∈ e.history := by
  rw [getD_eq_getElem _ _ hk]
  exact getElem_mem hk

theorem WellFormed.bringBack (he : WellFormed lines room e) (hk : k < e.history.length) :
    WellFormed lines room (e.bringBack k) :=
  { he with
    cursor_le := le_rfl
    text_le := he.line_le _ (mem_history hk)
    current_le := hk.le }

theorem length_remember (hlines : 0 < lines) {text : List α} {history : List (List α)}
    (hhistory : history.length ≤ lines) : (remember lines text history).length ≤ lines := by
  unfold remember
  split
  · exact hhistory
  · split
    · rw [length_append, length_tail, length_singleton]
      omega
    · rw [length_append, length_singleton]
      omega

theorem mem_remember {text line : List α} {history : List (List α)}
    (hmem : line ∈ remember lines text history) : line = text ∨ line ∈ history := by
  unfold remember at hmem
  split at hmem
  · exact .inr hmem
  · split at hmem
    · rw [mem_append, mem_singleton] at hmem
      exact hmem.symm.imp_right mem_of_mem_tail
    · rw [mem_append, mem_singleton] at hmem
      exact hmem.symm

theorem WellFormed.submit (he : WellFormed lines room e) (hlines : 0 < lines) :
    WellFormed lines room (e.submit lines) where
  cursor_le := le_rfl
  text_le := Nat.zero_le _
  history_le := length_remember hlines he.history_le
  current_le := le_rfl
  line_le := by
    intro line hmem
    obtain rfl | hmem := mem_remember hmem
    · exact he.text_le
    · exact he.line_le line hmem

end WellFormed

structure Forall (P : α → Prop) (e : Editor α) : Prop where
  text : ∀ a ∈ e.text, P a
  history : ∀ line ∈ e.history, ∀ a ∈ line, P a

section Forall

variable {lines k : ℕ} {a : α} {e : Editor α} {P : α → Prop}

section

variable (he : e.Forall P)
include he

theorem Forall.insert (ha : P a) : (e.insert a).Forall P where
  text := by
    intro b hb
    obtain rfl | hb := eq_or_mem_of_mem_insertIdx hb
    · exact ha
    · exact he.text b hb
  history := he.history

theorem Forall.delete : e.delete.Forall P := by
  unfold Editor.delete
  split
  · exact he
  · exact ⟨fun b hb => he.text b (mem_of_mem_eraseIdx hb), he.history⟩

theorem Forall.left : e.left.Forall P := ⟨he.text, he.history⟩

theorem Forall.right : e.right.Forall P := by
  unfold Editor.right
  split
  · exact ⟨he.text, he.history⟩
  · exact he

theorem Forall.bringBack (hk : k < e.history.length) : (e.bringBack k).Forall P :=
  ⟨he.history _ (mem_history hk), he.history⟩

theorem Forall.submit : (e.submit lines).Forall P where
  text := by simp [Editor.submit]
  history := by
    intro line hmem
    obtain rfl | hmem := mem_remember hmem
    · exact he.text
    · exact he.history line hmem

end

end Forall

end Editor
end RtThread
