import Mathlib.Data.List.Nodup
import Mathlib.Data.List.TakeWhile
import Mathlib.Tactic

/-!
# Skip lists

The rows of a skip list are lists over one type of nodes; the last row holds all
of them and every row is a sublist of the next one.  A search starts at the head
of the first row, walks on until the next node is one to stop at, and goes down
one row at the node it has reached.  The predicate `stop` is arbitrary; where it is
monotone along the last row, the search ends where a search of the last row alone
would end.
-/

namespace RtThread.SkipList

open List

variable {α : Type*} [DecidableEq α] {stop : α → Bool} {rows : ℕ → List α}
  {row before after : List α} {cursor : Option α} {x : α} {level height : ℕ}

/-- Walk along the nodes behind the cursor; `none` is the head of the row. -/
def walk (stop : α → Bool) : Option α → List α → Option α
  | cursor, [] => cursor
  | cursor, x :: xs => if stop x then cursor else walk stop (some x) xs

def behind : Option α → List α → List α
  | none, row => row
  | some c, row => (row.dropWhile (· ≠ c)).tail

def insertAfter (x : α) : Option α → List α → List α
  | none, row => x :: row
  | some _, [] => []
  | some c, y :: row => if y = c then y :: x :: row else y :: insertAfter x (some c) row

def cursorAt (stop : α → Bool) (rows : ℕ → List α) : ℕ → Option α
  | 0 => walk stop none (rows 0)
  | r + 1 => walk stop (cursorAt stop rows r) (behind (cursorAt stop rows r) (rows (r + 1)))

def insertRows (x : α) (cursors : ℕ → Option α) (level height : ℕ) (rows : ℕ → List α) :
    ℕ → List α :=
  fun r =>
    if level ≤ r + height ∧ r < level then insertAfter x (cursors r) (rows r) else rows r

def insertBefore (stop : α → Bool) (x : α) (row : List α) : List α :=
  row.takeWhile (fun y => !stop y) ++ x :: row.dropWhile (fun y => !stop y)

structure Cut (cursor : Option α) (row before after : List α) : Prop where
  append : row = before ++ after
  last : before.getLast? = cursor

/-- Every row is a sublist of the row below it. -/
structure IsSkipList (level : ℕ) (rows : ℕ → List α) : Prop where
  nodup : ∀ r < level, (rows r).Nodup
  sublist : ∀ r, r + 1 < level → (rows r).Sublist (rows (r + 1))

omit [DecidableEq α] in
theorem walk_eq (xs : List α) :
    walk stop cursor xs = ((xs.takeWhile (fun y => !stop y)).getLast?).or cursor := by
  induction xs generalizing cursor with
  | nil => simp [walk]
  | cons y ys ih =>
    unfold walk
    by_cases hy : stop y = true
    · simp [hy]
    · simp only [hy, if_false, Bool.false_eq_true, ih, takeWhile_cons, Bool.not_false,
        if_true, getLast?_cons]
      cases (ys.takeWhile fun y => !stop y).getLast? with
      | none | some z => rfl

omit [DecidableEq α] in
theorem Cut.walk (hcut : Cut cursor row before after) :
    Cut (walk stop cursor after) row (before ++ after.takeWhile (fun y => !stop y))
      (after.dropWhile (fun y => !stop y)) := by
  constructor
  · rw [append_assoc, takeWhile_append_dropWhile, hcut.append]
  · rw [getLast?_append, walk_eq, hcut.last]

omit [DecidableEq α] in
theorem Cut.eq_concat {c : α} (hcut : Cut (some c) row before after) :
    ∃ front, before = front ++ [c] ∧ row = front ++ c :: after := by
  rcases getLast?_eq_some_iff.mp hcut.last with ⟨front, hfront⟩
  refine ⟨front, hfront, ?_⟩
  rw [hcut.append, hfront, append_assoc, singleton_append]

omit [DecidableEq α] in
theorem Cut.eq_nil (hcut : Cut none row before after) : before = [] ∧ row = after := by
  have hnil := getLast?_eq_none_iff.mp hcut.last
  refine ⟨hnil, ?_⟩
  rw [hcut.append, hnil, nil_append]

theorem Cut.behind_eq (hcut : Cut cursor row before after) (hnodup : row.Nodup) :
    behind cursor row = after := by
  cases cursor with
  | none => exact hcut.eq_nil.2
  | some c =>
    rcases hcut.eq_concat with ⟨front, -, rfl⟩
    have hfront : ∀ y ∈ front, decide (y ≠ c) = true := by
      intro y hy
      have hne := (nodup_append.mp hnodup).2.2 y hy c mem_cons_self
      exact decide_eq_true hne
    simp only [behind]
    rw [dropWhile_append_of_pos hfront]
    simp

theorem Cut.insertAfter_eq (hcut : Cut cursor row before after) (hnodup : row.Nodup) :
    insertAfter x cursor row = before ++ x :: after := by
  cases cursor with
  | none =>
    rcases hcut.eq_nil with ⟨rfl, rfl⟩
    simp [insertAfter]
  | some c =>
    rcases hcut.eq_concat with ⟨front, rfl, rfl⟩
    have hfront : c ∉ front := by
      intro hmem
      exact (nodup_append.mp hnodup).2.2 c hmem c mem_cons_self rfl
    clear hcut hnodup
    induction front with
    | nil => simp [insertAfter]
    | cons y front ih =>
      have hne : y ≠ c := fun heq => hfront (heq ▸ mem_cons_self)
      have hrest := ih (fun hmem => hfront (mem_cons_of_mem _ hmem))
      simp [insertAfter, hne, hrest]

omit [DecidableEq α] in
theorem exists_cut (hcursor : ∀ c ∈ cursor, c ∈ row) :
    ∃ before after, Cut cursor row before after := by
  cases cursor with
  | none => exact ⟨[], row, rfl, rfl⟩
  | some c =>
    rcases append_of_mem (hcursor c rfl) with ⟨front, after, hrow⟩
    refine ⟨front ++ [c], after, ?_, by simp⟩
    rw [hrow, append_assoc, singleton_append]

omit [DecidableEq α] in
theorem Cut.mem (hcut : Cut cursor row before after) : ∀ c ∈ cursor, c ∈ row := by
  intro c hc
  rcases (Option.mem_def.mp hc ▸ hcut).eq_concat with ⟨front, -, hrow⟩
  rw [hrow]
  simp

omit [DecidableEq α] in
theorem sublist_of_concat {c : α} {left right lower upper : List α}
    (hsub : (left ++ c :: lower).Sublist (right ++ c :: upper))
    (hnodup : (right ++ c :: upper).Nodup) : left.Sublist right ∧ lower.Sublist upper := by
  induction right generalizing left with
  | nil =>
    cases left with
    | nil => exact ⟨.slnil, cons_sublist_cons.mp hsub⟩
    | cons a left =>
      have hnot : c ∉ upper := (nodup_cons.mp hnodup).1
      rcases sublist_cons_iff.mp hsub with hskip | ⟨rest, hrest, hsub'⟩
      · exact absurd (hskip.subset (by simp)) hnot
      · rw [cons_append, cons.injEq] at hrest
        rw [← hrest.2] at hsub'
        exact absurd (hsub'.subset (by simp)) hnot
  | cons b right ih =>
    have htail := (nodup_cons.mp hnodup).2
    rcases sublist_cons_iff.mp hsub with hskip | ⟨rest, hrest, hsub'⟩
    · rcases ih hskip htail with ⟨hleft, hlower⟩
      exact ⟨hleft.cons b, hlower⟩
    · cases left with
      | nil =>
        rw [nil_append, cons.injEq] at hrest
        have hnot := (nodup_cons.mp hnodup).1
        rw [← hrest.1] at hnot
        exact absurd (by simp) hnot
      | cons a left =>
        rw [cons_append, cons.injEq] at hrest
        rw [← hrest.2] at hsub'
        rcases ih hsub' htail with ⟨hleft, hlower⟩
        rw [hrest.1]
        exact ⟨hleft.cons_cons b, hlower⟩

omit [DecidableEq α] in
theorem Cut.sublist {upper before' after' : List α} (hcut : Cut cursor row before after)
    (hcut' : Cut cursor upper before' after') (hsub : row.Sublist upper) (hnodup : upper.Nodup) :
    before.Sublist before' ∧ after.Sublist after' := by
  cases cursor with
  | none =>
    rcases hcut.eq_nil with ⟨rfl, rfl⟩
    rcases hcut'.eq_nil with ⟨rfl, rfl⟩
    exact ⟨.slnil, hsub⟩
  | some c =>
    rcases hcut.eq_concat with ⟨front, rfl, rfl⟩
    rcases hcut'.eq_concat with ⟨front', rfl, rfl⟩
    rcases sublist_of_concat hsub hnodup with ⟨hfront, hafter⟩
    exact ⟨hfront.append_right _, hafter⟩

omit [DecidableEq α] in
theorem sublist_dropWhile {xs ys : List α} (hsub : xs.Sublist ys)
    (hhead : ∀ y ∈ xs.head?, stop y = true) : xs.Sublist (ys.dropWhile (fun y => !stop y)) := by
  induction ys with
  | nil => exact hsub
  | cons y ys ih =>
    by_cases hy : stop y = true
    · rw [dropWhile_cons_of_neg (by simp [hy])]
      exact hsub
    · rw [dropWhile_cons_of_pos (by simpa using hy)]
      rcases sublist_cons_iff.mp hsub with hskip | ⟨rest, hrest, -⟩
      · exact ih hskip
      · have hstop := hhead y (by simp [hrest])
        contradiction

omit [DecidableEq α] in
theorem head_dropWhile_stop (ys : List α) :
    ∀ y ∈ (ys.dropWhile (fun y => !stop y)).head?, stop y = true := by
  intro y hy
  have hnot := head?_dropWhile_not (fun y => !stop y) ys
  rw [Option.mem_def.mp hy] at hnot
  simpa using hnot

namespace IsSkipList

section

variable (hskip : IsSkipList level rows)
include hskip

theorem exists_lower_cut {r : ℕ} (hr : r + 1 < level)
    (hcut : Cut (cursorAt stop rows r) (rows r) before after) :
    ∃ before' after', Cut (cursorAt stop rows r) (rows (r + 1)) before' after' ∧
      cursorAt stop rows (r + 1) = walk stop (cursorAt stop rows r) after' := by
  have hmem : ∀ c ∈ cursorAt stop rows r, c ∈ rows (r + 1) := by
    intro c hc
    exact (hskip.sublist r hr).subset (hcut.mem c hc)
  rcases exists_cut hmem with ⟨before', after', hcut'⟩
  refine ⟨before', after', hcut', ?_⟩
  rw [cursorAt, hcut'.behind_eq (hskip.nodup _ hr)]

theorem exists_cursor_cut :
    ∀ r < level, ∃ before after, Cut (cursorAt stop rows r) (rows r) before after ∧
      ∀ y ∈ after.head?, stop y = true := by
  intro r
  induction r with
  | zero =>
    intro _
    have hcut : Cut none (rows 0) [] (rows 0) := ⟨rfl, rfl⟩
    exact ⟨_, _, hcut.walk, head_dropWhile_stop _⟩
  | succ r ih =>
    intro hr
    rcases ih (by omega) with ⟨before, after, hcut, -⟩
    rcases hskip.exists_lower_cut hr hcut with ⟨before', after', hcut', hnext⟩
    rw [hnext]
    exact ⟨_, _, hcut'.walk, head_dropWhile_stop after'⟩

theorem insertAfter_sublist {r : ℕ} (hr : r + 1 < level) :
    (insertAfter x (cursorAt stop rows r) (rows r)).Sublist
      (insertAfter x (cursorAt stop rows (r + 1)) (rows (r + 1))) := by
  rcases hskip.exists_cursor_cut r (by omega) with ⟨before, after, hcut, hhead⟩
  rcases hskip.exists_lower_cut hr hcut with ⟨before', after', hcut', hnext⟩
  have hnodup := hskip.nodup _ hr
  rcases hcut.sublist hcut' (hskip.sublist r hr) hnodup with ⟨hbefore, hafter⟩
  rw [hnext, hcut.insertAfter_eq (hskip.nodup r (by omega)),
    hcut'.walk.insertAfter_eq hnodup, append_assoc]
  apply hbefore.append
  exact ((sublist_dropWhile hafter hhead).cons_cons x).trans (sublist_append_right _ _)

theorem sublist_insertAfter {r : ℕ} (hr : r < level) :
    (rows r).Sublist (insertAfter x (cursorAt stop rows r) (rows r)) := by
  rcases hskip.exists_cursor_cut r hr with ⟨before, after, hcut, -⟩
  rw [hcut.insertAfter_eq (hskip.nodup r hr), hcut.append]
  exact (Sublist.refl before).append (sublist_cons_self x after)

theorem insertAfter_perm {r : ℕ} (hr : r < level) :
    (insertAfter x (cursorAt stop rows r) (rows r)).Perm (x :: rows r) := by
  rcases hskip.exists_cursor_cut r hr with ⟨before, after, hcut, -⟩
  rw [hcut.insertAfter_eq (hskip.nodup r hr), hcut.append]
  exact perm_middle

theorem insertRows (hfresh : ∀ r < level, x ∉ rows r) :
    IsSkipList level (insertRows x (cursorAt stop rows) level height rows) := by
  constructor
  · intro r hr
    unfold SkipList.insertRows
    split_ifs with hin
    · rw [(hskip.insertAfter_perm hr).nodup_iff, nodup_cons]
      exact ⟨hfresh r hr, hskip.nodup r hr⟩
    · exact hskip.nodup r hr
  · intro r hr
    unfold SkipList.insertRows
    split_ifs with hupper hlower hlower
    · exact hskip.insertAfter_sublist hr
    · omega
    · exact (hskip.sublist r hr).trans (hskip.sublist_insertAfter hr)
    · exact hskip.sublist r hr

theorem erase (x : α) : IsSkipList level (fun r => (rows r).erase x) := by
  constructor
  · intro r hr
    exact (hskip.nodup r hr).erase x
  · intro r hr
    exact (hskip.sublist r hr).erase x

end

omit [DecidableEq α] in
theorem sublist_of_le (hskip : IsSkipList level rows) {r r' : ℕ} (hle : r ≤ r')
    (hr' : r' < level) : (rows r).Sublist (rows r') := by
  induction r', hle using Nat.le_induction with
  | base => exact Sublist.refl _
  | succ n _ ih => exact (ih (by omega)).trans (hskip.sublist n hr')

theorem behind_cursorAt (hskip : IsSkipList level rows)
    (hmono : ∀ r < level, (rows r).Pairwise fun a b => stop a = true → stop b = true) :
    ∀ r < level, ∃ before after, Cut (cursorAt stop rows r) (rows r) before after ∧
      before = (rows r).takeWhile (fun y => !stop y) ∧
      after = (rows r).dropWhile (fun y => !stop y) := by
  intro r
  induction r with
  | zero =>
    intro _
    have hcut : Cut none (rows 0) [] (rows 0) := ⟨rfl, rfl⟩
    exact ⟨_, _, hcut.walk, rfl, rfl⟩
  | succ r ih =>
    intro hr
    rcases ih (by omega) with ⟨before, after, hcut, hbefore, -⟩
    rcases hskip.exists_lower_cut hr hcut with ⟨before', after', hcut', hnext⟩
    -- everything up to the cursor is passed over in the next row as well
    have hpassed : ∀ y ∈ before', (!stop y) = true := by
      intro y hy
      cases hcursor : cursorAt stop rows r with
      | none =>
        rw [hcursor] at hcut'
        rw [hcut'.eq_nil.1] at hy
        cases hy
      | some c =>
        rw [hcursor] at hcut hcut'
        rcases hcut.eq_concat with ⟨front, hfront, -⟩
        have hc : c ∈ (rows r).takeWhile (fun y => !stop y) := by
          rw [← hbefore, hfront]
          simp
        have hcstop := mem_takeWhile_imp hc
        rcases hcut'.eq_concat with ⟨front', hfront', hrow⟩
        have hpair := hmono (r + 1) hr
        rw [hrow, pairwise_append] at hpair
        rw [hfront', mem_append, mem_singleton] at hy
        rcases hy with hy | rfl
        · by_contra hstop
          have htrue : stop y = true := by simpa using hstop
          have hcfalse := hpair.2.2 y hy c mem_cons_self htrue
          simp [hcfalse] at hcstop
        · exact hcstop
    refine ⟨before' ++ after'.takeWhile (fun y => !stop y),
      after'.dropWhile (fun y => !stop y), ?_, ?_, ?_⟩
    · rw [hnext]
      exact hcut'.walk
    · rw [hcut'.append, takeWhile_append_of_pos hpassed]
    · rw [hcut'.append, dropWhile_append_of_pos hpassed]

theorem insertAfter_eq_insertBefore (hskip : IsSkipList level rows)
    (hmono : ∀ r < level, (rows r).Pairwise fun a b => stop a = true → stop b = true)
    {r : ℕ} (hr : r < level) :
    insertAfter x (cursorAt stop rows r) (rows r) = insertBefore stop x (rows r) := by
  rcases hskip.behind_cursorAt hmono r hr with ⟨before, after, hcut, hbefore, hafter⟩
  rw [hcut.insertAfter_eq (hskip.nodup r hr), hbefore, hafter]
  rfl

end IsSkipList

omit [DecidableEq α] in
theorem stop_of_mem_dropWhile (hmono : row.Pairwise fun a b => stop a = true → stop b = true)
    (hx : x ∈ row.dropWhile (fun y => !stop y)) : stop x = true := by
  have hhead : ∀ y ∈ (row.dropWhile fun y => !stop y).head?, stop y = true :=
    head_dropWhile_stop row
  have hpair := hmono.sublist (dropWhile_sublist (fun y => !stop y))
  cases hdrop : row.dropWhile (fun y => !stop y) with
  | nil =>
    rw [hdrop] at hx
    cases hx
  | cons y ys =>
    rw [hdrop] at hx hhead hpair
    have hy := hhead y rfl
    rcases mem_cons.mp hx with rfl | hx
    · exact hy
    · exact (pairwise_cons.mp hpair).1 x hx hy

omit [DecidableEq α] in
theorem pairwise_insertBefore {R : α → α → Prop} (hrow : row.Pairwise R)
    (hmono : row.Pairwise fun a b => stop a = true → stop b = true)
    (hleft : ∀ a ∈ row, stop a = false → R a x) (hright : ∀ b ∈ row, stop b = true → R x b) :
    (insertBefore stop x row).Pairwise R := by
  have hsplit := takeWhile_append_dropWhile (p := fun y => !stop y) (l := row)
  have hparts := hsplit ▸ hrow
  rw [pairwise_append] at hparts
  rcases hparts with ⟨htake, hdrop, hacross⟩
  unfold insertBefore
  rw [pairwise_append, pairwise_cons]
  refine ⟨htake, ⟨?_, hdrop⟩, ?_⟩
  · intro b hb
    exact hright b (dropWhile_subset _ hb) (stop_of_mem_dropWhile hmono hb)
  · intro a ha b hb
    rcases mem_cons.mp hb with rfl | hb
    · have hstop := mem_takeWhile_imp ha
      exact hleft a (takeWhile_subset _ ha) (by simpa using hstop)
    · exact hacross a ha b hb

end RtThread.SkipList
