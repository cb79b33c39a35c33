import RtThread.ShellModel

/-!
# The shell edits as an ideal editor

As long as no character is typed behind the last but one byte of `line`, and a
CR is not followed at once by another character, the line of the shell is the
text of an editor.  A character for a longer line sets back `line_position` but
not `line_curpos`, and the byte read behind a CR is taken instead of it.
-/

namespace RtThread.Shell

open Function List Option Editor

def keyOf (ch : Byte) : Key Byte :=
  if ch = 0x0d ∨ ch = 0x0a then .enter
  else if ch = 0x7f ∨ ch = 0x08 then .delete
  else .char ch

def InputStat.read (stat : InputStat) (ch : Byte) : InputStat × Option (Key Byte) :=
  if ch = 0x1b then (.waitSpecKey, none)
  else
    match stat with
    | .waitSpecKey =>
      if ch = 0x5b then (.waitFuncKey, none) else (.waitNormal, some (keyOf ch))
    | .waitFuncKey =>
      (.waitNormal, some (if ch = 0x41 then .earlier
        else if ch = 0x42 then .later
        else if ch = 0x44 then .left
        else if ch = 0x43 then .right
        else keyOf ch))
    | .waitNormal => (.waitNormal, some (keyOf ch))

def room : ℕ := FINSH_CMD_SIZE - 1

def feed (overlong : Byte → Editor Byte → Editor Byte) (x : InputStat × Editor Byte) (ch : Byte) :
    InputStat × Editor Byte :=
  ((x.1.read ch).1, match (x.1.read ch).2 with
    | some key => x.2.press FINSH_HISTORY_LINES room overlong key
    | none => x.2)

def Input.bytes (input : Input) : List Byte :=
  if input.ch = 0x0d then input.ch :: input.next.toList else [input.ch]

def Input.Admissible (input : Input) : Prop := ∀ b ∈ input.bytes, b ≠ 0 ∧ b ≠ 0x09

instance (input : Input) : Decidable input.Admissible :=
  inferInstanceAs (Decidable (∀ b ∈ _, _))

def InputStat.types (stat : InputStat) (ch : Byte) : Bool :=
  match (stat.read ch).2 with
  | some (.char _) => true
  | _ => false

/-- No character is typed into a line without room, and no other byte is there behind a CR than
the end of a line. -/
def Fits (s : State) (input : Input) : Prop :=
  (input.ch = 0x0d → input.next ∈ [none, some 0x0d, some 0x0a]) ∧
    (s.stat.types input.ch = true → s.linePosition < room)

instance (s : State) (input : Input) : Decidable (Fits s input) :=
  inferInstanceAs (Decidable (_ ∧ _))

def RunFits (complete : (ℕ → Byte) → ℕ → Byte) : State → List Input → Prop
  | _, [] => True
  | s, input :: inputs =>
    Fits s input ∧ ∀ s' ∈ s.step complete input, RunFits complete s' inputs

instance decidableRunFits (complete : (ℕ → Byte) → ℕ → Byte) :
    ∀ (inputs : List Input) (s : State), Decidable (RunFits complete s inputs)
  | [], _ => isTrue trivial
  | _ :: inputs, _ =>
    have : ∀ s', Decidable (RunFits complete s' inputs) := decidableRunFits complete inputs
    inferInstanceAs (Decidable (_ ∧ _))

/-- The line shows the ideal editor's text and cursor. -/
structure Edits (s : State) (e : Editor Byte) : Prop where
  curpos_le : s.lineCurpos ≤ s.linePosition
  position_le : s.linePosition ≤ FINSH_CMD_SIZE - 1
  zero_behind : ∀ i, s.linePosition ≤ i → i < FINSH_CMD_SIZE → s.line i = 0
  text : (List.range s.linePosition).map s.line = e.text
  cursor : s.lineCurpos = e.cursor

/-! ## The invariant -/

/-- The shell shows the line, cursor and history of the editor. -/
structure Holds (s : State) (e : Editor Byte) : Prop where
  wellFormed : e.WellFormed FINSH_HISTORY_LINES room
  nonzero : e.Forall (· ≠ 0)
  line : ∀ i < FINSH_CMD_SIZE, s.line i = e.text.getD i 0
  position : s.linePosition = e.text.length
  curpos : s.lineCurpos = e.cursor
  count : s.historyCount = e.history.length
  current : s.currentHistory = e.current
  history : ∀ k < e.history.length, ∀ i, s.cmdHistory k i = (e.history.getD k []).getD i 0

def Gives (result : Option State) (stat : InputStat) (e : Editor Byte) : Prop :=
  ∃ s, result = some s ∧ s.stat = stat ∧ Holds s e

section Steps

variable {s : State} {e : Editor Byte} {ch : Byte} {k : ℕ} {text : List Byte} {line : ℕ → Byte}
  {complete : (ℕ → Byte) → ℕ → Byte} {overlong : Byte → Editor Byte → Editor Byte}
  {input : Input} {x : InputStat × Editor Byte}

theorem room_lt : room < FINSH_CMD_SIZE := by decide

theorem Holds.length_le (h : Holds s e) : e.text.length ≤ room := h.wellFormed.text_le

theorem Holds.edits (h : Holds s e) : Edits s e where
  curpos_le := by
    rw [h.curpos, h.position]
    exact h.wellFormed.cursor_le
  position_le := by
    rw [h.position]
    exact h.length_le
  zero_behind := by
    intro i hlow hhigh
    rw [h.line i hhigh]
    rw [h.position] at hlow
    exact getD_eq_default _ _ hlow
  text := by
    rw [h.position]
    apply ext_getElem
    · rw [length_map, length_range]
    · intro i hi hi'
      have hlt : i < FINSH_CMD_SIZE := (hi'.trans_le h.length_le).trans room_lt
      rw [getElem_map, getElem_range, h.line i hlt, getD_eq_getElem _ _ hi']
  cursor := h.curpos

theorem holds_init : Holds init Editor.empty where
  wellFormed := Editor.wellFormed_empty
  nonzero := ⟨by simp [Editor.empty], by simp [Editor.empty]⟩
  line := fun _ _ => rfl
  position := rfl
  curpos := rfl
  count := rfl
  current := rfl
  history := by simp [Editor.empty]

theorem dec8_of_pos {n : ℕ} (hpos : n ≠ 0) (hlt : n < 256) : dec8 n = n - 1 := by
  unfold dec8
  lia

theorem inc8_of_lt {n : ℕ} (hlt : n + 1 < 256) : inc8 n = n + 1 := Nat.mod_eq_of_lt hlt

theorem Holds.position_lt (h : Holds s e) : s.linePosition < FINSH_CMD_SIZE := by
  rw [h.position]
  exact h.length_le.trans_lt room_lt

theorem Holds.curpos_lt (h : Holds s e) : s.lineCurpos < FINSH_CMD_SIZE := by
  have hle : s.lineCurpos ≤ s.linePosition := h.edits.curpos_le
  exact hle.trans_lt h.position_lt

theorem Holds.leftKey (h : Holds s e) : Holds s.leftKey e.left := by
  have hlt := h.curpos_lt
  unfold State.leftKey
  split
  · rename_i hpos
    have hdec : dec8 s.lineCurpos = e.cursor - 1 := by
      rw [dec8_of_pos hpos (hlt.trans (by decide)), h.curpos]
    exact { h with
      wellFormed := h.wellFormed.left
      nonzero := h.nonzero.left
      curpos := hdec }
  · rename_i hzero
    have hcursor : s.lineCurpos = e.cursor - 1 := by
      have hcurpos := h.curpos
      omega
    exact { h with
      wellFormed := h.wellFormed.left
      nonzero := h.nonzero.left
      curpos := hcursor }

theorem Holds.rightKey (h : Holds s e) : Holds s.rightKey e.right := by
  have hlt := h.curpos_lt
  have hright := h.wellFormed.right
  have hnonzero := h.nonzero.right
  have hiff : s.lineCurpos < s.linePosition ↔ e.cursor < e.text.length := by
    rw [h.curpos, h.position]
  unfold State.rightKey
  unfold right at hright hnonzero ⊢
  by_cases hcursor : e.cursor < e.text.length
  · have hinc : inc8 s.lineCurpos = e.cursor + 1 := by
      rw [inc8_of_lt (Nat.lt_of_le_of_lt hlt (by decide)), h.curpos]
    rw [if_pos hcursor] at hright hnonzero ⊢
    rw [if_pos (hiff.mpr hcursor)]
    exact { h with wellFormed := hright, nonzero := hnonzero, curpos := hinc }
  · rw [if_neg hcursor, if_neg (fun hmore => hcursor (hiff.mp hmore))]
    exact h

/-! ## Recalled lines -/

theorem strlen_eq (hline : ∀ i < FINSH_CMD_SIZE, line i = text.getD i 0)
    (hlength : text.length ≤ room) (hnonzero : ∀ b ∈ text, b ≠ 0) :
    strlen line = some text.length := by
  have hlt : text.length < FINSH_CMD_SIZE := hlength.trans_lt room_lt
  have hend : line text.length = 0 := by
    rw [hline _ hlt]
    exact getD_eq_default _ _ le_rfl
  have hbefore : ∀ i < text.length, line i ≠ 0 := by
    intro i hi
    rw [hline i (hi.trans hlt), getD_eq_getElem _ _ hi]
    exact hnonzero _ (getElem_mem hi)
  rw [strlen, find?_range_eq_some]
  exact ⟨by simpa using hend, mem_range.mpr hlt, fun i hi => by simpa using hbefore i hi⟩

theorem Holds.copyHistory (h : Holds s e) (hk : k < e.history.length) :
    Gives { s with currentHistory := k }.copyHistory s.stat (e.bringBack k) := by
  have hlong : (e.history.getD k []).length ≤ room := h.wellFormed.line_le _ (mem_history hk)
  have hline : ∀ i < FINSH_CMD_SIZE,
      (if i < FINSH_CMD_SIZE then s.cmdHistory k i else s.line i) =
        (e.history.getD k []).getD i 0 := by
    intro i hi
    rw [if_pos hi]
    exact h.history k hk i
  have hstrlen := strlen_eq hline hlong (h.nonzero.history _ (mem_history hk))
  have hmod : (e.history.getD k []).length % 256 = (e.history.getD k []).length :=
    Nat.mod_eq_of_lt (hlong.trans_lt (by decide))
  refine ⟨{ s with
    currentHistory := k
    line := fun i => if i < FINSH_CMD_SIZE then s.cmdHistory k i else s.line i
    linePosition := (e.history.getD k []).length
    lineCurpos := (e.history.getD k []).length }, ?_, rfl, ?_⟩
  · rw [State.copyHistory]
    rw [hstrlen, map_some, hmod]
  · exact { wellFormed := h.wellFormed.bringBack hk
            nonzero := h.nonzero.bringBack hk
            line := hline
            position := rfl
            curpos := rfl
            count := h.count
            current := rfl
            history := h.history }

theorem Holds.upKey (h : Holds s e) : Gives s.upKey s.stat e.earlier := by
  have hcurrent := h.current
  have hle := h.wellFormed.current_le
  unfold State.upKey earlier
  by_cases hzero : e.current = 0
  · rw [if_neg (by omega), if_pos hzero]
    exact ⟨_, rfl, rfl, { h with current := hzero.symm }⟩
  · rw [if_pos (by omega), if_neg hzero, hcurrent]
    exact h.copyHistory (by omega)

theorem Holds.downKey (h : Holds s e) : Gives s.downKey s.stat e.later := by
  have hcurrent := h.current
  have hcount := h.count
  unfold State.downKey later
  by_cases hnil : e.history = []
  · have hzero : e.history.length = 0 := by rw [hnil, length_nil]
    rw [if_pos hnil, if_neg (by lia), if_neg (by lia)]
    exact ⟨s, rfl, rfl, h⟩
  · have hpos : 0 < e.history.length := length_pos_iff.mpr hnil
    rw [if_neg hnil]
    by_cases hbefore : (s.currentHistory : ℤ) < (s.historyCount : ℤ) - 1
    · have hmin : min (e.current + 1) (e.history.length - 1) = s.currentHistory + 1 := by lia
      rw [if_pos hbefore, hmin]
      exact h.copyHistory (by lia)
    · have hmin : min (e.current + 1) (e.history.length - 1) = s.historyCount - 1 := by lia
      rw [if_neg hbefore, if_pos (by lia), hmin]
      exact h.copyHistory (by lia)

/-! ## The end of a line -/

theorem Holds.historyLine (h : Holds s e) (i : ℕ) : s.historyLine i = e.text.getD i 0 := by
  unfold State.historyLine
  rw [h.position]
  by_cases hi : i < e.text.length
  · rw [if_pos hi, h.line i ((hi.trans_le h.length_le).trans room_lt)]
  · rw [if_neg hi]
    exact (getD_eq_default _ _ (Nat.not_lt.mp hi)).symm

/-- The rows are the lines of the history. -/
structure ShowsHistory (s : State) (history : List (List Byte)) : Prop where
  count : s.historyCount = history.length
  rows : ∀ k < history.length, ∀ i, s.cmdHistory k i = (history.getD k []).getD i 0

theorem ShowsHistory.pushHistory {history : List (List Byte)} (h : ShowsHistory s history)
    (hbound : history.length ≤ FINSH_HISTORY_LINES) (hposition : s.linePosition = text.length)
    (hline : ∀ i, s.historyLine i = text.getD i 0) :
    ShowsHistory s.pushHistory (Editor.remember FINSH_HISTORY_LINES text history) := by
  have hcount := h.count
  unfold State.pushHistory remember
  by_cases hempty : text.length = 0
  · rw [if_pos hempty, if_neg (by lia)]
    exact ⟨hcount, h.rows⟩
  · rw [if_neg hempty, if_pos (by lia)]
    by_cases hfull : FINSH_HISTORY_LINES ≤ history.length
    · have hlast : history.tail.length = FINSH_HISTORY_LINES - 1 := by
        rw [length_tail]
        lia
      rw [if_pos hfull, if_pos (hcount ▸ hfull)]
      constructor
      · rw [length_append, hlast]
        rfl
      · intro k hk i
        rw [length_append, length_singleton, hlast] at hk
        dsimp only
        by_cases hbefore : k < FINSH_HISTORY_LINES - 1
        · have hget : (history.tail ++ [text]).getD k [] = history.getD (k + 1) [] := by
            rw [getD_append _ _ _ _ (hlast ▸ hbefore), getD_eq_getElem?_getD,
              getD_eq_getElem?_getD, getElem?_tail]
          rw [if_pos hbefore, hget]
          exact h.rows (k + 1) (by unfold FINSH_HISTORY_LINES at *; lia) i
        · have hk' : k = FINSH_HISTORY_LINES - 1 := by lia
          have hget : (history.tail ++ [text]).getD k [] = text := by
            rw [getD_append_right _ _ _ _ (by lia), hlast, hk', Nat.sub_self]
            rfl
          rw [if_neg hbefore, if_pos hk', hget]
          exact hline i
    · rw [if_neg hfull, if_neg (hcount ▸ hfull)]
      constructor
      · rw [length_append, length_singleton, ← hcount]
      · intro k hk i
        rw [length_append, length_singleton] at hk
        dsimp only
        by_cases hlast : k = s.historyCount
        · have hget : (history ++ [text]).getD k [] = text := by
            rw [getD_append_right _ _ _ _ (by lia), hlast, hcount, Nat.sub_self]
            rfl
          rw [hlast, update_self, ← hlast, hget]
          exact hline i
        · have hget : (history ++ [text]).getD k [] = history.getD k [] :=
            getD_append _ _ _ _ (by lia)
          rw [update_of_ne hlast, hget]
          exact h.rows k (by lia) i

theorem Holds.pushHistory (h : Holds s e) :
    ShowsHistory s.pushHistory (Editor.remember FINSH_HISTORY_LINES e.text e.history) := by
  have hshows : ShowsHistory s e.history := ⟨h.count, h.history⟩
  exact hshows.pushHistory h.wellFormed.history_le h.position h.historyLine

theorem pushHistory_linePosition : s.pushHistory.linePosition = s.linePosition := by
  unfold State.pushHistory
  split_ifs <;> rfl

theorem pushHistory_stat : s.pushHistory.stat = s.stat := by
  unfold State.pushHistory
  split_ifs <;> rfl

theorem Holds.endLine (h : Holds s e) : Gives s.endLine s.stat (e.submit FINSH_HISTORY_LINES) := by
  have hwrite : writeLine s.pushHistory.linePosition 0x3b s.pushHistory.line =
      some (update s.pushHistory.line s.pushHistory.linePosition 0x3b) := by
    rw [writeLine, if_pos]
    rw [pushHistory_linePosition]
    exact h.position_lt
  obtain ⟨hcount, hhistory⟩ := h.pushHistory
  refine ⟨{ s.pushHistory with line := fun _ => 0, linePosition := 0, lineCurpos := 0 }, ?_,
    pushHistory_stat, ?_⟩
  · rw [State.endLine]
    rw [hwrite, map_some]
  · exact { wellFormed := h.wellFormed.submit (by decide)
            nonzero := h.nonzero.submit
            line := fun _ _ => rfl
            position := rfl
            curpos := rfl
            count := hcount
            current := hcount
            history := hhistory }

/-! ## Characters -/

theorem getD_insertIdx {n : ℕ} (hn : n ≤ text.length) (i : ℕ) : (text.insertIdx n ch).getD i 0 =
      if i < n then text.getD i 0 else if i = n then ch else text.getD (i - 1) 0 := by
  rw [getD_eq_getElem?_getD, getElem?_insertIdx]
  split_ifs <;> simp_all [getD_eq_getElem?_getD]

theorem getD_eraseIdx {n : ℕ} (i : ℕ) :
    (text.eraseIdx n).getD i 0 = if i < n then text.getD i 0 else text.getD (i + 1) 0 := by
  rw [getD_eq_getElem?_getD, getElem?_eraseIdx]
  split_ifs <;> simp_all [getD_eq_getElem?_getD]

theorem Holds.normalChar (h : Holds s e) (hroom : e.text.length < room) (hch : ch ≠ 0) :
    Gives (s.normalChar ch) s.stat (e.insert ch) := by
  have hposition := h.position
  have hcurpos := h.curpos
  have hle := h.wellFormed.cursor_le
  have hlt : s.linePosition < FINSH_CMD_SIZE - 1 := hposition ▸ hroom
  have hline : ∃ line, (if s.lineCurpos < s.linePosition then
        (moveLine (s.lineCurpos + 1) s.lineCurpos (s.linePosition - s.lineCurpos) s.line).bind
          (writeLine s.lineCurpos ch)
      else writeLine s.linePosition ch s.line) = some line ∧
      ∀ i < FINSH_CMD_SIZE, line i = (e.text.insertIdx e.cursor ch).getD i 0 := by
    by_cases hmiddle : s.lineCurpos < s.linePosition
    · refine ⟨update (rtMemmove (s.lineCurpos + 1) s.lineCurpos
        (s.linePosition - s.lineCurpos) s.line) s.lineCurpos ch, ?_, ?_⟩
      · have hinside : s.lineCurpos + 1 + (s.linePosition - s.lineCurpos) ≤ FINSH_CMD_SIZE ∧
            s.lineCurpos + (s.linePosition - s.lineCurpos) ≤ FINSH_CMD_SIZE := by lia
        rw [if_pos hmiddle, moveLine, if_pos hinside, bind_some, writeLine, if_pos (by lia)]
      · intro i hi
        rw [getD_insertIdx hle, ← hcurpos]
        by_cases hat : i = s.lineCurpos
        · rw [if_neg (by lia), if_pos hat, hat, update_self]
        · rw [update_of_ne hat, rtMemmove_apply]
          by_cases hbefore : i < s.lineCurpos
          · rw [if_neg (by lia), if_pos hbefore, h.line i hi]
          · rw [if_neg hbefore, if_neg hat]
            by_cases hmoved : i ≤ s.linePosition
            · have hsource : s.lineCurpos + (i - (s.lineCurpos + 1)) = i - 1 := by lia
              rw [if_pos (by lia), hsource, h.line (i - 1) (by lia)]
            · rw [if_neg (by lia), h.line i hi, getD_eq_default _ _ (by lia),
                getD_eq_default _ _ (by lia)]
    · have hend : s.linePosition = s.lineCurpos := by lia
      refine ⟨update s.line s.linePosition ch, ?_, ?_⟩
      · rw [if_neg hmiddle, writeLine, if_pos (by lia)]
      · intro i hi
        rw [getD_insertIdx hle, ← hcurpos, ← hend]
        by_cases hat : i = s.linePosition
        · rw [if_neg (by lia), if_pos hat, hat, update_self]
        · rw [update_of_ne hat, if_neg hat, h.line i hi]
          by_cases hbefore : i < s.linePosition
          · rw [if_pos hbefore]
          · rw [if_neg hbefore, getD_eq_default _ _ (by lia),
              getD_eq_default _ _ (by lia)]
  obtain ⟨line, hresult, hshows⟩ := hline
  have hsmall : ¬FINSH_CMD_SIZE ≤ s.linePosition := by lia
  have hsize : FINSH_CMD_SIZE = 80 := rfl
  have hposition' : inc8 s.linePosition = (e.insert ch).text.length := by
    rw [length_insert h.wellFormed, inc8_of_lt (by lia), hposition]
  have hcurpos' : inc8 s.lineCurpos = (e.insert ch).cursor := by
    rw [inc8_of_lt (by lia), hcurpos]
    rfl
  refine ⟨{ s with
    line := line, linePosition := inc8 s.linePosition, lineCurpos := inc8 s.lineCurpos }, ?_, rfl,
    ?_⟩
  · rw [State.normalChar, if_neg hsmall, hresult, map_some]
  · exact { h with
      wellFormed := h.wellFormed.insert hroom
      nonzero := h.nonzero.insert hch
      line := hshows
      position := hposition'
      curpos := hcurpos' }

theorem Holds.backspace (h : Holds s e) : Gives s.backspace s.stat e.delete := by
  have hposition := h.position
  have hcurpos := h.curpos
  have hle := h.wellFormed.cursor_le
  have hlt := h.position_lt
  have hsize : FINSH_CMD_SIZE = 80 := rfl
  unfold State.backspace
  by_cases hzero : e.cursor = 0
  · rw [if_pos (by lia), delete, if_pos hzero]
    exact ⟨s, rfl, rfl, h⟩
  · have hwellFormed := h.wellFormed.delete
    have hnonzero := h.nonzero.delete
    have hlength := length_delete h.wellFormed hzero
    have hdecPosition : dec8 s.linePosition = e.text.length - 1 := by
      rw [dec8_of_pos (by lia) (by lia), hposition]
    have hdecCurpos : dec8 s.lineCurpos = e.cursor - 1 := by
      rw [dec8_of_pos (by lia) (by lia), hcurpos]
    rw [delete, if_neg hzero] at hwellFormed hnonzero hlength ⊢
    rw [if_neg (by lia)]
    rw [hdecPosition, hdecCurpos]
    have hline : ∃ line, (if e.cursor - 1 < e.text.length - 1 then
          (moveLine (e.cursor - 1) (e.cursor - 1 + 1) (e.text.length - 1 - (e.cursor - 1))
            s.line).bind (writeLine (e.text.length - 1) 0)
        else writeLine (e.text.length - 1) 0 s.line) = some line ∧
        ∀ i < FINSH_CMD_SIZE, line i = (e.text.eraseIdx (e.cursor - 1)).getD i 0 := by
      by_cases hmiddle : e.cursor - 1 < e.text.length - 1
      · refine ⟨update (rtMemmove (e.cursor - 1) (e.cursor - 1 + 1)
          (e.text.length - 1 - (e.cursor - 1)) s.line) (e.text.length - 1) 0, ?_, ?_⟩
        · rw [if_pos hmiddle, moveLine, if_pos (by lia), bind_some, writeLine,
            if_pos (by lia)]
        · intro i hi
          rw [getD_eraseIdx]
          by_cases hat : i = e.text.length - 1
          · rw [if_neg (by lia), hat, update_self, getD_eq_default _ _ (by lia)]
          · rw [update_of_ne hat, rtMemmove_apply]
            by_cases hbefore : i < e.cursor - 1
            · rw [if_neg (by lia), if_pos hbefore, h.line i hi]
            · rw [if_neg hbefore]
              by_cases hmoved : i < e.text.length - 1
              · have hsource : e.cursor - 1 + 1 + (i - (e.cursor - 1)) = i + 1 := by lia
                rw [if_pos (by lia), hsource, h.line (i + 1) (by lia)]
              · rw [if_neg (by lia), h.line i hi, getD_eq_default _ _ (by lia),
                  getD_eq_default _ _ (by lia)]
      · refine ⟨update s.line (e.text.length - 1) 0, ?_, ?_⟩
        · rw [if_neg hmiddle, writeLine, if_pos (by lia)]
        · intro i hi
          rw [getD_eraseIdx]
          by_cases hat : i = e.text.length - 1
          · rw [if_neg (by lia), hat, update_self, getD_eq_default _ _ (by lia)]
          · rw [update_of_ne hat, h.line i hi]
            by_cases hbefore : i < e.cursor - 1
            · rw [if_pos hbefore]
            · rw [if_neg hbefore, getD_eq_default _ _ (by lia),
                getD_eq_default _ _ (by lia)]
    obtain ⟨line, hresult, hshows⟩ := hline
    refine ⟨{ s with
      line := line, linePosition := e.text.length - 1, lineCurpos := e.cursor - 1 }, ?_, rfl, ?_⟩
    · rw [← apply_ite (Option.map _), hresult, map_some]
    · exact { h with
        wellFormed := hwellFormed
        nonzero := hnonzero
        line := hshows
        position := hlength.symm
        curpos := rfl }

/-! ## One round -/

theorem submit_submit (lines : ℕ) (e : Editor Byte) :
    (e.submit lines).submit lines = e.submit lines := by
  have hnone : remember lines [] (e.submit lines).history = (e.submit lines).history :=
    if_pos rfl
  unfold submit at hnone ⊢
  rw [hnone]

theorem Holds.plainKey (h : Holds s e) (hstat : s.stat = .waitNormal)
    (hadmissible : input.Admissible)
    (hnext : input.ch = 0x0d → input.next ∈ [none, some 0x0d, some 0x0a])
    (hroom : keyOf input.ch = .char input.ch → s.linePosition < room) :
    ∃ s', s.plainKey complete input = some s' ∧ s'.stat = .waitNormal ∧
      Holds s' (e.press FINSH_HISTORY_LINES room overlong (keyOf input.ch)) := by
  rw [← hstat]
  unfold State.plainKey
  have hself : input.ch ∈ input.bytes := by
    unfold Input.bytes
    split
    · exact .head _
    · exact .head _
  obtain ⟨hnull, htab⟩ := hadmissible input.ch hself
  by_cases hcr : input.ch = 0x0d
  · have hend : input.next.getD 0x0d = 0x0d ∨ input.next.getD 0x0d = 0x0a := by
      have hread := hnext hcr
      simp only [mem_cons, not_mem_nil, or_false] at hread
      obtain hread | hread | hread := hread <;> rw [hread]
      · exact .inl rfl
      · exact .inl rfl
      · exact .inr rfl
    have hkey : keyOf input.ch = .enter := if_pos (.inl hcr)
    rw [if_pos hcr, State.lineChar, if_pos hend, hkey]
    exact h.endLine
  · rw [if_neg hcr, if_neg htab]
    by_cases hdelete : input.ch = 0x7f ∨ input.ch = 0x08
    · have hlf : ¬(input.ch = 0x0d ∨ input.ch = 0x0a) := by
        obtain hdelete | hdelete := hdelete <;> rw [hdelete] <;> decide
      have hkey : keyOf input.ch = .delete := by rw [keyOf, if_neg hlf, if_pos hdelete]
      rw [if_pos hdelete, hkey]
      exact h.backspace
    · rw [if_neg hdelete, State.lineChar]
      by_cases hend : input.ch = 0x0d ∨ input.ch = 0x0a
      · have hkey : keyOf input.ch = .enter := if_pos hend
        rw [if_pos hend, hkey]
        exact h.endLine
      · have hkey : keyOf input.ch = .char input.ch := by
          rw [keyOf, if_neg hend, if_neg hdelete]
        have hfits : e.text.length < room := h.position ▸ hroom hkey
        rw [if_neg hend, hkey, press, if_pos hfits]
        exact h.normalChar hfits hnull

theorem Holds.firstByte (overlong : Byte → Editor Byte → Editor Byte) (h : Holds s e)
    (hadmissible : input.Admissible) (hfits : Fits s input) :
    ∃ s', s.step complete input = some s' ∧ s'.stat = (feed overlong (s.stat, e) input.ch).1 ∧
      Holds s' (feed overlong (s.stat, e) input.ch).2 := by
  obtain ⟨hnext, hroom⟩ := hfits
  unfold State.step feed
  have hnormal : Holds { s with stat := .waitNormal } e := { h with }
  have hplain : (keyOf input.ch = .char input.ch → s.linePosition < room) →
      ∃ s', { s with stat := .waitNormal }.plainKey complete input = some s' ∧
        s'.stat = .waitNormal ∧
        Holds s' (e.press FINSH_HISTORY_LINES room overlong (keyOf input.ch)) := fun hroom =>
    hnormal.plainKey rfl hadmissible hnext hroom
  unfold InputStat.types InputStat.read at hroom
  unfold InputStat.read
  by_cases hesc : input.ch = 0x1b
  · rw [if_pos hesc, if_pos hesc]
    exact ⟨_, rfl, rfl, { h with }⟩
  · rw [if_neg hesc] at hroom
    rw [if_neg hesc, if_neg hesc]
    cases hstat : s.stat with
    | waitNormal =>
      rw [hstat] at hroom
      have hsame : { s with stat := .waitNormal } = s := by rw [← hstat]
      rw [hsame] at hplain
      exact hplain fun hch => hroom (by rw [hch])
    | waitSpecKey =>
      rw [hstat] at hroom
      by_cases hfunc : input.ch = 0x5b
      · rw [if_pos hfunc, if_pos hfunc]
        exact ⟨_, rfl, rfl, { h with }⟩
      · rw [if_neg hfunc] at hroom
        rw [if_neg hfunc, if_neg hfunc]
        exact hplain fun hch => hroom (by rw [hch])
    | waitFuncKey =>
      rw [hstat] at hroom
      by_cases hup : input.ch = 0x41
      · rw [if_pos hup, if_pos hup]
        exact hnormal.upKey
      · rw [if_neg hup] at hroom
        rw [if_neg hup, if_neg hup]
        by_cases hdown : input.ch = 0x42
        · rw [if_pos hdown, if_pos hdown]
          exact hnormal.downKey
        · rw [if_neg hdown] at hroom
          rw [if_neg hdown, if_neg hdown]
          by_cases hleft : input.ch = 0x44
          · rw [if_pos hleft, if_pos hleft]
            refine ⟨_, rfl, ?_, hnormal.leftKey⟩
            unfold State.leftKey
            split <;> rfl
          · rw [if_neg hleft] at hroom
            rw [if_neg hleft, if_neg hleft]
            by_cases hright : input.ch = 0x43
            · rw [if_pos hright, if_pos hright]
              refine ⟨_, rfl, ?_, hnormal.rightKey⟩
              unfold State.rightKey
              split <;> rfl
            · rw [if_neg hright] at hroom
              rw [if_neg hright, if_neg hright]
              exact hplain fun hch => hroom (by rw [hch])

/-- One round of the shell does the keys of its input in the editor. -/
theorem Holds.step (complete : (ℕ → Byte) → ℕ → Byte) (overlong : Byte → Editor Byte → Editor Byte)
    (h : Holds s e) (hadmissible : input.Admissible) (hfits : Fits s input) :
    ∃ s', s.step complete input = some s' ∧
      s'.stat = (input.bytes.foldl (feed overlong) (s.stat, e)).1 ∧
      Holds s' (input.bytes.foldl (feed overlong) (s.stat, e)).2 := by
  obtain ⟨s', hstep, hstat, hholds⟩ := h.firstByte overlong hadmissible hfits
  refine ⟨s', hstep, ?_⟩
  unfold Input.bytes
  by_cases hcr : input.ch = 0x0d
  · rw [if_pos hcr]
    cases hnext : input.next with
    | none => exact ⟨hstat, hholds⟩
    | some b =>
      have hb : b = 0x0d ∨ b = 0x0a := by
        simpa [hnext] using hfits.1 hcr
      have hkey : keyOf b = .enter := if_pos hb
      have hfirst : feed overlong (s.stat, e) input.ch =
          (.waitNormal, e.submit FINSH_HISTORY_LINES) := by
        rw [hcr]
        cases s.stat <;> rfl
      have hesc : b ≠ 0x1b := by
        obtain rfl | rfl := hb <;> decide
      have hsecond : feed overlong (.waitNormal, e.submit FINSH_HISTORY_LINES) b =
          (.waitNormal, e.submit FINSH_HISTORY_LINES) := by
        unfold feed InputStat.read
        rw [if_neg hesc]
        dsimp only
        rw [hkey, press, submit_submit]
      rw [hfirst] at hstat hholds
      rw [toList_some, foldl_cons, foldl_cons, foldl_nil, hfirst, hsecond]
      exact ⟨hstat, hholds⟩
  · rw [if_neg hcr]
    exact ⟨hstat, hholds⟩

end Steps

/-! ## Runs -/

def ideal (overlong : Byte → Editor Byte → Editor Byte) (inputs : List Input) :
    InputStat × Editor Byte :=
  (inputs.flatMap Input.bytes).foldl (feed overlong) (.waitNormal, Editor.empty)

section Runs

variable {complete : (ℕ → Byte) → ℕ → Byte} {overlong : Byte → Editor Byte → Editor Byte}
  {inputs : List Input} {s : State} {e : Editor Byte}

theorem Holds.run (overlong : Byte → Editor Byte → Editor Byte) (h : Holds s e)
    (hadmissible : ∀ input ∈ inputs, input.Admissible) (hfits : RunFits complete s inputs) :
    ∃ s', s.run complete inputs = some s' ∧
      Holds s' ((inputs.flatMap Input.bytes).foldl (feed overlong) (s.stat, e)).2 := by
  induction inputs generalizing s e with
  | nil => exact ⟨s, rfl, h⟩
  | cons input inputs ih =>
    obtain ⟨hfirst, hrest⟩ := hfits
    obtain ⟨s', hstep, hstat, hholds⟩ :=
      h.step complete overlong (hadmissible input (.head _)) hfirst
    obtain ⟨s'', hrun, hlast⟩ :=
      ih hholds (fun other hmem => hadmissible other (.tail _ hmem)) (hrest s' hstep)
    refine ⟨s'', ?_, ?_⟩
    · rw [State.run, foldlM_cons, hstep]
      exact hrun
    · rw [flatMap_cons, foldl_append]
      rw [hstat] at hlast
      exact hlast

/-- While every round fits, the line of the shell is the text of an editor, whatever this does
with a character for a full line. -/
theorem edits_of_runFits (complete : (ℕ → Byte) → ℕ → Byte)
    (overlong : Byte → Editor Byte → Editor Byte) (inputs : List Input)
    (hadmissible : ∀ input ∈ inputs, input.Admissible) (hfits : RunFits complete init inputs) :
    ∃ s, init.run complete inputs = some s ∧ Edits s (ideal overlong inputs).2 := by
  obtain ⟨s, hrun, hholds⟩ := holds_init.run overlong hadmissible hfits
  exact ⟨s, hrun, hholds.edits⟩

theorem edits_short_line :
    ∃ s, init.run id ([0x61, 0x62, 0x1b, 0x5b, 0x44, 0x63, 0x08, 0x0d, 0x1b, 0x5b, 0x41].map
        fun ch => ⟨ch, none⟩) = some s ∧
      Edits s (ideal (fun _ e => e) ([0x61, 0x62, 0x1b, 0x5b, 0x44, 0x63, 0x08, 0x0d, 0x1b, 0x5b,
        0x41].map fun ch => ⟨ch, none⟩)).2 :=
  edits_of_runFits id (fun _ e => e) _ (by decide +kernel) (by decide +kernel)

/-- Eighty characters fill all of `line`.  One more leaves the cursor behind the text, and the
end of the line is written behind `line`. -/
theorem not_edits_of_long_line : (¬∀ inputs : List Input, (∀ input ∈ inputs, input.Admissible) →
      ∃ overlong s, init.run id inputs = some s ∧ Edits s (ideal overlong inputs).2) ∧
    (init.run id (List.replicate 81 ⟨0x61, none⟩)).map
      (fun s => (s.linePosition, s.lineCurpos)) = some (1, 81) ∧
    (init.run id (List.replicate 80 ⟨0x61, none⟩ ++ [⟨0x0a, none⟩])).isNone = true := by
  refine ⟨fun hall => ?_, by decide +kernel, by decide +kernel⟩
  have hfull : (init.run id (List.replicate 80 ⟨0x61, none⟩)).map State.linePosition = some 80 := by
    decide +kernel
  obtain ⟨overlong, s, hrun, hedits⟩ := hall (List.replicate 80 ⟨0x61, none⟩) (by decide +kernel)
  rw [hrun, map_some, some_inj] at hfull
  have hle := hedits.position_le
  rw [hfull] at hle
  exact absurd hle (by decide)

end Runs

end RtThread.Shell
