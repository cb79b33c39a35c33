import Mathlib.Data.List.Basic
import Mathlib.Tactic

/-!
# Histories of files

What happens to the files of a store is a list of events, the newest first: a file
is emptied, or some elements are written at a place of it.  A list is what a history
leaves of a file when every place holds what was written there last.
-/

namespace RtThread.FileHistory

variable {ν β : Type*}

inductive Event (ν β : Type*) where
  | emptied (name : ν)
  | wrote (name : ν) (pos : ℕ) (data : List β)

def latest [DecidableEq ν] : List (Event ν β) → ν → ℕ → Option β
  | [], _, _ => none
  | .emptied other :: earlier, name, q => if other = name then none else latest earlier name q
  | .wrote other pos data :: earlier, name, q =>
    if other = name ∧ pos ≤ q ∧ q < pos + data.length then data[q - pos]?
    else latest earlier name q

def overwrite (file : List β) (pos : ℕ) (data : List β) : List β :=
  file.take pos ++ data ++ file.drop (pos + data.length)

section Overwrite

variable {file data : List β} {pos : ℕ}

theorem length_overwrite (hpos : pos ≤ file.length) :
    (overwrite file pos data).length = max file.length (pos + data.length) := by
  simp [overwrite]
  lia

theorem getElem?_overwrite (hpos : pos ≤ file.length) (q : ℕ) : (overwrite file pos data)[q]? =
      if pos ≤ q ∧ q < pos + data.length then data[q - pos]? else file[q]? := by
  have htake : (file.take pos).length = pos := by simp [hpos]
  unfold overwrite
  rw [List.append_assoc]
  rcases lt_or_ge q pos with hbefore | hfrom
  · rw [if_neg (by lia), List.getElem?_append_left (by lia), List.getElem?_take_of_lt hbefore]
  · rw [List.getElem?_append_right (by lia), htake]
    rcases lt_or_ge q (pos + data.length) with hin | hbehind
    · rw [if_pos ⟨hfrom, hin⟩, List.getElem?_append_left (by lia)]
    · rw [if_neg (by lia), List.getElem?_append_right (by lia), List.getElem?_drop]
      congr 1
      lia

theorem overwrite_congr {longer : List β} (htake : longer.take file.length = file)
    (hpos : pos ≤ file.length) (hend : file.length ≤ pos + data.length)
    (hlonger : longer.length ≤ pos + data.length) :
    overwrite longer pos data = overwrite file pos data := by
  have hfront : longer.take pos = file.take pos := by
    rw [← htake, List.take_take, min_eq_left hpos]
  unfold overwrite
  rw [hfront, List.drop_eq_nil_of_le hend, List.drop_eq_nil_of_le hlonger]

end Overwrite

variable [DecidableEq ν] {history : List (Event ν β)} {name other : ν} {file data : List β} {pos : ℕ}

def Leaves (history : List (Event ν β)) (name : ν) (file : List β) : Prop :=
  ∀ q, file[q]? = latest history name q

namespace Leaves

theorem emptied : Leaves (.emptied name :: history) name [] := by
  intro q
  simp [latest]

section

variable (hleaves : Leaves history name file)
include hleaves

theorem emptied_other (hne : other ≠ name) : Leaves (.emptied other :: history) name file := by
  intro q
  rw [hleaves q, latest, if_neg hne]

theorem wrote (hpos : pos ≤ file.length) :
    Leaves (.wrote name pos data :: history) name (overwrite file pos data) := by
  intro q
  rw [getElem?_overwrite hpos, hleaves q, latest]
  simp

theorem wrote_other (hne : other ≠ name) : Leaves (.wrote other pos data :: history) name file := by
  intro q
  rw [hleaves q, latest, if_neg fun hboth => hne hboth.1]

theorem wrote_nil : Leaves (.wrote other pos [] :: history) name file := by
  intro q
  rw [hleaves q, latest, if_neg]
  rintro ⟨-, hle, hlt⟩
  exact absurd hlt (by simpa using hle)

end

end Leaves

end RtThread.FileHistory
