import RtThread.ShellEditing

/-!
# The history of the shell

Whatever keys are pressed, and whatever is completed, the history table holds the
last lines that were entered: a line is what stands in front of `line_position`
when its end is read.  The cursor keys bring these lines back.
-/

namespace RtThread

open List Option Editor

variable {α : Type*}

namespace Editor

def lastLines (lines : ℕ) (entered : List (List α)) : List (List α) :=
  entered.drop (entered.length - lines)

section LastLines

variable {lines k : ℕ} {text : List α} {entered : List (List α)}

theorem length_lastLines : (lastLines lines entered).length = min lines entered.length := by
  rw [lastLines, length_drop]
  lia

theorem getD_lastLines :
    (lastLines lines entered).getD k [] = entered.getD (entered.length - lines + k) [] := by
  rw [lastLines, getD_eq_getElem?_getD, getElem?_drop, getD_eq_getElem?_getD]

theorem remember_lastLines (hlines : 0 < lines) (htext : text ≠ []) :
    remember lines text (lastLines lines entered) = lastLines lines (entered ++ [text]) := by
  have hpos : text.length ≠ 0 := by simpa using htext
  rw [remember, if_neg hpos, length_lastLines]
  by_cases hfull : lines ≤ entered.length
  · have hlength : (entered ++ [text]).length - lines = entered.length - lines + 1 := by
      rw [length_append, length_singleton]
      lia
    rw [if_pos (by lia), lastLines, lastLines, hlength, tail_drop,
      drop_append_of_le_length (by lia)]
  · have hlength : (entered ++ [text]).length - lines = 0 := by
      rw [length_append, length_singleton]
      lia
    have hall : entered.length - lines = 0 := by lia
    rw [if_neg (by lia), lastLines, lastLines, hlength, hall, drop_zero, drop_zero]

theorem mem_of_mem_lastLines {line : List α} (hmem : line ∈ lastLines lines entered) :
    line ∈ entered :=
  mem_of_mem_drop hmem

end LastLines

end Editor

namespace Shell

def State.typed (s : State) : List Byte := (List.range s.linePosition).map s.line

def Input.endsLine (input : Input) : Bool :=
  if input.ch = 0x0d then input.next.getD 0x0d = 0x0d ∨ input.next.getD 0x0d = 0x0a
  else input.ch = 0x0a

def State.enteredIn (s : State) (input : Input) : List (List Byte) :=
  if input.endsLine ∧ s.linePosition ≠ 0 then [s.typed] else []

def entered (complete : (ℕ → Byte) → ℕ → Byte) : State → List Input → List (List Byte)
  | _, [] => []
  | s, input :: inputs =>
    s.enteredIn input ++ match s.step complete input with
      | some s' => entered complete s' inputs
      | none => []

def State.usesLine (s : State) (input : Input) : Bool :=
  match (s.stat.read input.ch).2 with
  | some (.char _) | some .enter => true
  | _ => false

/-- The line is shorter than `FINSH_CMD_SIZE` when a character is typed or the line is entered,
and so is a completed line. -/
def State.Short (complete : (ℕ → Byte) → ℕ → Byte) (s : State) (input : Input) : Prop :=
  (s.usesLine input = true → s.linePosition < FINSH_CMD_SIZE) ∧
    (input.ch = 0x09 → (strlen (complete s.line)).isSome = true)

instance (complete : (ℕ → Byte) → ℕ → Byte) (s : State) (input : Input) :
    Decidable (s.Short complete input) :=
  inferInstanceAs (Decidable (_ ∧ _))

def RunShort (complete : (ℕ → Byte) → ℕ → Byte) : State → List Input → Prop
  | _, [] => True
  | s, input :: inputs =>
    s.Short complete input ∧ ∀ s' ∈ s.step complete input, RunShort complete s' inputs

instance decidableRunShort (complete : (ℕ → Byte) → ℕ → Byte) :
    ∀ (inputs : List Input) (s : State), Decidable (RunShort complete s inputs)
  | [], _ => isTrue trivial
  | _ :: inputs, _ =>
    have : ∀ s', Decidable (RunShort complete s' inputs) := decidableRunShort complete inputs
    inferInstanceAs (Decidable (_ ∧ _))

def upKeys (j : ℕ) : List Byte := (List.replicate j [0x1b, 0x5b, 0x41]).flatten

structure Displays (s : State) (text : List Byte) : Prop where
  line : ∀ i < FINSH_CMD_SIZE, s.line i = text.getD i 0
  position : s.linePosition = text.length
  curpos : s.lineCurpos = text.length

/-- After the end of a line, `j` times Up shows the line entered `min j history_count` lines ago;
none ago is the new, empty line. -/
def Recalls (complete : (ℕ → Byte) → ℕ → Byte) (s : State) (lines : List (List Byte)) : Prop :=
  ∀ j inputs, inputs.map Input.ch = upKeys j → ∃ s', s.run complete inputs = some s' ∧
      Displays s' (lines.getD (lines.length - min j s.historyCount) [])

/-- The history shows the last of the lines entered. -/
structure HistoryInv (s : State) (lines : List (List Byte)) : Prop where
  curpos_le : s.lineCurpos ≤ s.linePosition
  position_le : s.linePosition ≤ FINSH_CMD_SIZE
  current_le : s.currentHistory ≤ s.historyCount
  shows : ShowsHistory s (Editor.lastLines FINSH_HISTORY_LINES lines)
  short : ∀ line ∈ lines, line.length ≤ room ∧ ∀ b ∈ line, b ≠ 0

structure Fresh (s : State) : Prop where
  stat : s.stat = .waitNormal
  current : s.currentHistory = s.historyCount
  displays : Displays s []

section Steps

variable {s s' : State} {lines : List (List Byte)} {input : Input} {inputs : List Input} {ch : Byte}
  {k m : ℕ} {complete : (ℕ → Byte) → ℕ → Byte}

theorem typed_length : s.typed.length = s.linePosition := by
  rw [State.typed, length_map, length_range]

theorem historyLine_typed (i : ℕ) : s.historyLine i = s.typed.getD i 0 := by
  unfold State.historyLine
  by_cases hi : i < s.linePosition
  · rw [if_pos hi, State.typed, getD_eq_getElem _ _ (by simpa using hi)]
    simp
  · rw [if_neg hi, getD_eq_default]
    rw [typed_length]
    exact Nat.not_lt.mp hi

theorem historyInv_init : HistoryInv init [] where
  curpos_le := le_rfl
  position_le := Nat.zero_le _
  current_le := le_rfl
  shows := ⟨rfl, by simp [Editor.lastLines]⟩
  short := by simp

section

variable (h : HistoryInv s lines)
include h

theorem HistoryInv.withStat (stat : InputStat) : HistoryInv { s with stat := stat } lines :=
  { h with shows := ⟨h.shows.count, h.shows.rows⟩ }

theorem HistoryInv.count_eq : s.historyCount = min FINSH_HISTORY_LINES lines.length :=
  h.shows.count.trans length_lastLines

theorem HistoryInv.row_ok (hk : k < s.historyCount) :
    ((Editor.lastLines FINSH_HISTORY_LINES lines).getD k []).length ≤ room ∧
      ∀ b ∈ (Editor.lastLines FINSH_HISTORY_LINES lines).getD k [], b ≠ 0 := by
  have hmem : (lastLines FINSH_HISTORY_LINES lines).getD k [] ∈
      lastLines FINSH_HISTORY_LINES lines := by
    rw [getD_eq_getElem _ _ (h.shows.count ▸ hk)]
    exact getElem_mem _
  exact h.short _ (mem_of_mem_lastLines hmem)

theorem HistoryInv.copyHistory (hk : k < s.historyCount) :
    ∃ s', { s with currentHistory := k }.copyHistory = some s' ∧ HistoryInv s' lines ∧
      s'.stat = s.stat ∧ s'.historyCount = s.historyCount ∧ s'.currentHistory = k ∧
      Displays s' ((Editor.lastLines FINSH_HISTORY_LINES lines).getD k []) := by
  obtain ⟨hlong, hnonzero⟩ := h.row_ok hk
  have hline : ∀ i < FINSH_CMD_SIZE, (if i < FINSH_CMD_SIZE then s.cmdHistory k i else s.line i) =
      ((lastLines FINSH_HISTORY_LINES lines).getD k []).getD i 0 := by
    intro i hi
    rw [if_pos hi]
    exact h.shows.rows k (h.shows.count ▸ hk) i
  have hstrlen := strlen_eq hline hlong hnonzero
  have hmod := Nat.mod_eq_of_lt (hlong.trans_lt (by decide : room < 256))
  refine ⟨{ s with
    currentHistory := k
    line := fun i => if i < FINSH_CMD_SIZE then s.cmdHistory k i else s.line i
    linePosition := ((lastLines FINSH_HISTORY_LINES lines).getD k []).length
    lineCurpos := ((lastLines FINSH_HISTORY_LINES lines).getD k []).length }, ?_, ?_, rfl,
    rfl, rfl, hline, rfl, rfl⟩
  · rw [State.copyHistory]
    rw [hstrlen, map_some, hmod]
  · exact { curpos_le := le_rfl
            position_le := (hlong.trans_lt room_lt).le
            current_le := hk.le
            shows := ⟨h.shows.count, h.shows.rows⟩
            short := h.short }

theorem HistoryInv.upKey : ∃ s', s.upKey = some s' ∧ HistoryInv s' lines := by
  unfold State.upKey
  by_cases hpos : 0 < s.currentHistory
  · have hle := h.current_le
    obtain ⟨s', hcopy, hinv, -⟩ := h.copyHistory (by omega : s.currentHistory - 1 < s.historyCount)
    rw [if_pos hpos]
    exact ⟨s', hcopy, hinv⟩
  · rw [if_neg hpos]
    exact ⟨_, rfl, { h with
      current_le := Nat.zero_le _
      shows := ⟨h.shows.count, h.shows.rows⟩ }⟩

theorem HistoryInv.downKey : ∃ s', s.downKey = some s' ∧ HistoryInv s' lines := by
  unfold State.downKey
  by_cases hbefore : (s.currentHistory : ℤ) < (s.historyCount : ℤ) - 1
  · obtain ⟨s', hcopy, hinv, -⟩ := h.copyHistory (by omega : s.currentHistory + 1 < s.historyCount)
    rw [if_pos hbefore]
    exact ⟨s', hcopy, hinv⟩
  · rw [if_neg hbefore]
    by_cases hsome : s.historyCount ≠ 0
    · obtain ⟨s', hcopy, hinv, -⟩ := h.copyHistory (by omega : s.historyCount - 1 < s.historyCount)
      rw [if_pos hsome]
      exact ⟨s', hcopy, hinv⟩
    · rw [if_neg hsome]
      exact ⟨s, rfl, h⟩

theorem HistoryInv.leftKey : HistoryInv s.leftKey lines := by
  have hle := h.curpos_le
  have hsize := h.position_le
  unfold State.leftKey
  split
  · rename_i hpos
    have hdec := dec8_of_pos hpos ((hle.trans hsize).trans_lt (by decide : FINSH_CMD_SIZE < 256))
    exact { h with
      curpos_le := by
        dsimp only
        omega
      shows := ⟨h.shows.count, h.shows.rows⟩ }
  · exact h

theorem HistoryInv.rightKey : HistoryInv s.rightKey lines := by
  have hsize := h.position_le
  unfold State.rightKey
  split
  · rename_i hlt
    have hbyte : FINSH_CMD_SIZE < 256 := by decide
    have hinc := inc8_of_lt (by omega : s.lineCurpos + 1 < 256)
    exact { h with
      curpos_le := by
        dsimp only
        omega
      shows := ⟨h.shows.count, h.shows.rows⟩ }
  · exact h

theorem HistoryInv.backspace : ∃ s', s.backspace = some s' ∧ HistoryInv s' lines := by
  have hle := h.curpos_le
  have hsize := h.position_le
  have hbyte : FINSH_CMD_SIZE < 256 := by decide
  unfold State.backspace
  by_cases hzero : s.lineCurpos = 0
  · rw [if_pos hzero]
    exact ⟨s, rfl, h⟩
  · have hposition := dec8_of_pos (by lia : s.linePosition ≠ 0) (by lia)
    have hcurpos := dec8_of_pos hzero (by lia)
    have hkeeps : ∀ line, HistoryInv { s with
        linePosition := s.linePosition - 1, lineCurpos := s.lineCurpos - 1, line := line } lines :=
      fun line => { h with
        curpos_le := Nat.sub_le_sub_right hle 1
        position_le := (Nat.sub_le _ _).trans hsize
        shows := ⟨h.shows.count, h.shows.rows⟩ }
    rw [if_neg hzero]
    dsimp only
    rw [hposition, hcurpos]
    split
    · rw [moveLine, if_pos (by lia), bind_some, writeLine, if_pos (by lia), map_some]
      exact ⟨_, rfl, hkeeps _⟩
    · rw [writeLine, if_pos (by lia), map_some]
      exact ⟨_, rfl, hkeeps _⟩

theorem HistoryInv.normalChar (hshort : s.linePosition < FINSH_CMD_SIZE) :
    ∃ s', s.normalChar ch = some s' ∧ HistoryInv s' lines := by
  have hle := h.curpos_le
  have hbyte : FINSH_CMD_SIZE < 256 := by decide
  have hposition := inc8_of_lt (by lia : s.linePosition + 1 < 256)
  have hcurpos := inc8_of_lt (by lia : s.lineCurpos + 1 < 256)
  have hkeeps : ∀ line, HistoryInv { s with
      line := line, linePosition := s.linePosition + 1, lineCurpos := s.lineCurpos + 1 } lines :=
    fun line => { h with
      curpos_le := Nat.succ_le_succ hle
      position_le := hshort
      shows := ⟨h.shows.count, h.shows.rows⟩ }
  unfold State.normalChar
  rw [if_neg (Nat.not_le.mpr hshort)]
  dsimp only
  rw [hposition, hcurpos]
  split
  · rw [moveLine, if_pos (by lia), bind_some, writeLine, if_pos (by lia), map_some]
    exact ⟨_, rfl, hkeeps _⟩
  · rw [writeLine, if_pos hshort, map_some]
    exact ⟨_, rfl, hkeeps _⟩

theorem HistoryInv.endLine (hshort : s.linePosition < FINSH_CMD_SIZE)
    (hstat : s.stat = .waitNormal) (hnul : s.linePosition ≠ 0 → ∀ b ∈ s.typed, b ≠ 0) :
    ∃ s', s.endLine = some s' ∧ Fresh s' ∧
      HistoryInv s' (lines ++ if s.linePosition ≠ 0 then [s.typed] else []) := by
  have hremember : remember FINSH_HISTORY_LINES s.typed
      (lastLines FINSH_HISTORY_LINES lines) =
      lastLines FINSH_HISTORY_LINES
        (lines ++ if s.linePosition ≠ 0 then [s.typed] else []) := by
    by_cases hzero : s.linePosition = 0
    · rw [if_neg (not_not.mpr hzero), append_nil, remember,
        if_pos (typed_length.trans hzero)]
    · have htyped : s.typed ≠ [] := by
        intro hnil
        exact hzero (typed_length.symm.trans (congrArg List.length hnil))
      rw [if_pos hzero]
      exact remember_lastLines (by decide) htyped
  have hshows := h.shows.pushHistory
    (length_lastLines.trans_le (min_le_left _ _)) typed_length.symm historyLine_typed
  rw [hremember] at hshows
  have hcurrent : s.pushHistory.currentHistory = s.pushHistory.historyCount := by
    unfold State.pushHistory
    split_ifs <;> rfl
  refine ⟨{ s.pushHistory with line := fun _ => 0, linePosition := 0, lineCurpos := 0 }, ?_, ?_, ?_⟩
  · rw [State.endLine, writeLine, pushHistory_linePosition, if_pos hshort, map_some]
  · exact ⟨pushHistory_stat.trans hstat, hcurrent, fun _ _ => rfl, rfl, rfl⟩
  · exact { curpos_le := le_rfl
            position_le := Nat.zero_le _
            current_le := hcurrent.le
            shows := ⟨hshows.count, hshows.rows⟩
            short := by
              intro line hmem
              rw [mem_append] at hmem
              obtain hold | hnew := hmem
              · exact h.short line hold
              · split at hnew
                · rename_i hsome
                  obtain rfl := mem_singleton.mp hnew
                  exact ⟨by rw [typed_length]; exact Nat.le_pred_of_lt hshort, hnul hsome⟩
                · cases hnew }

end

theorem HistoryInv.lineChar (h : HistoryInv s lines) (hshort : s.linePosition < FINSH_CMD_SIZE)
    (hstat : s.stat = .waitNormal)
    (hnul : (ch = 0x0d ∨ ch = 0x0a) → s.linePosition ≠ 0 → ∀ b ∈ s.typed, b ≠ 0) :
    ∃ s', s.lineChar ch = some s' ∧ ((ch = 0x0d ∨ ch = 0x0a) → Fresh s') ∧ HistoryInv s' (lines ++
        if (ch = 0x0d ∨ ch = 0x0a) ∧ s.linePosition ≠ 0 then [s.typed] else []) := by
  unfold State.lineChar
  by_cases hend : ch = 0x0d ∨ ch = 0x0a
  · obtain ⟨s', hs', hfresh, hinv⟩ := h.endLine hshort hstat (hnul hend)
    rw [if_pos hend]
    refine ⟨s', hs', fun _ => hfresh, ?_⟩
    simpa only [hend, true_and] using hinv
  · obtain ⟨s', hs', hinv⟩ := h.normalChar hshort
    rw [if_neg hend]
    refine ⟨s', hs', fun hyes => absurd hyes hend, ?_⟩
    rw [if_neg fun hyes => hend hyes.1, append_nil]
    exact hinv

theorem endsLine_eq_false {b : Byte} (hb : input.ch = b) (hcr : b ≠ 0x0d) (hlf : b ≠ 0x0a) :
    input.endsLine = false := by
  rw [Input.endsLine, hb, if_neg hcr]
  exact decide_eq_false hlf

theorem kept_of_quiet (hno : input.endsLine = false) {result : Option State}
    (hkept : ∃ s', result = some s' ∧ HistoryInv s' lines) :
    ∃ s', result = some s' ∧ (input.endsLine = true → Fresh s') ∧
      HistoryInv s' (lines ++ s.enteredIn input) := by
  have hlines : lines ++ s.enteredIn input = lines := by simp [State.enteredIn, hno]
  obtain ⟨s', hs', hinv⟩ := hkept
  rw [hlines]
  exact ⟨s', hs', fun hyes => absurd (hno.symm.trans hyes) Bool.false_ne_true, hinv⟩

theorem HistoryInv.plainKey (h : HistoryInv s lines) (hstat : s.stat = .waitNormal)
    (hshort : keyOf input.ch ≠ .delete → s.linePosition < FINSH_CMD_SIZE)
    (htab : input.ch = 0x09 → (strlen (complete s.line)).isSome = true)
    (hnul : input.endsLine = true → s.linePosition ≠ 0 → ∀ b ∈ s.typed, b ≠ 0) :
    ∃ s', s.plainKey complete input = some s' ∧ (input.endsLine = true → Fresh s') ∧
      HistoryInv s' (lines ++ s.enteredIn input) := by
  unfold State.plainKey
  by_cases hcr : input.ch = 0x0d
  · have hends : input.endsLine = true ↔ input.next.getD 0x0d = 0x0d ∨ input.next.getD 0x0d = 0x0a := by
      rw [Input.endsLine, if_pos hcr, decide_eq_true_eq]
    have hkey : keyOf input.ch ≠ .delete := by
      rw [hcr]
      exact fun heq => by cases heq
    rw [if_pos hcr, State.enteredIn]
    simp only [hends] at hnul ⊢
    exact h.lineChar (hshort hkey) hstat hnul
  · have hends : input.endsLine = true ↔ input.ch = 0x0d ∨ input.ch = 0x0a := by
      rw [Input.endsLine, if_neg hcr, decide_eq_true_eq]
      exact (or_iff_right hcr).symm
    rw [if_neg hcr]
    by_cases htabKey : input.ch = 0x09
    · obtain ⟨length, hlength⟩ := isSome_iff_exists.mp (htab htabKey)
      have hsize : length < FINSH_CMD_SIZE := mem_range.mp (mem_of_find?_eq_some hlength)
      have hmod := Nat.mod_eq_of_lt (hsize.trans (by decide : FINSH_CMD_SIZE < 256))
      rw [if_pos htabKey, hlength, map_some, hmod]
      apply kept_of_quiet (endsLine_eq_false htabKey (by decide) (by decide))
      exact ⟨_, rfl, { h with
        curpos_le := le_rfl
        position_le := hsize.le
        shows := ⟨h.shows.count, h.shows.rows⟩ }⟩
    · rw [if_neg htabKey]
      by_cases hdelete : input.ch = 0x7f ∨ input.ch = 0x08
      · rw [if_pos hdelete]
        obtain hdel | hbackspace := hdelete
        · exact kept_of_quiet (endsLine_eq_false hdel (by decide) (by decide)) h.backspace
        · exact kept_of_quiet (endsLine_eq_false hbackspace (by decide) (by decide)) h.backspace
      · have hkey : keyOf input.ch ≠ .delete := by
          rw [keyOf, if_neg hdelete]
          split <;> exact fun heq => by cases heq
        rw [if_neg hdelete, State.enteredIn]
        simp only [hends] at hnul ⊢
        exact h.lineChar (hshort hkey) hstat hnul

theorem usesLine_of_read (hread : (s.stat.read input.ch).2 = some (keyOf input.ch))
    (hne : keyOf input.ch ≠ .delete) : s.usesLine input = true := by
  rw [State.usesLine, hread]
  unfold keyOf at hne ⊢
  by_cases hend : input.ch = 0x0d ∨ input.ch = 0x0a
  · rw [if_pos hend]
  · rw [if_neg hend] at hne ⊢
    by_cases hdelete : input.ch = 0x7f ∨ input.ch = 0x08
    · exact absurd (if_pos hdelete) hne
    · rw [if_neg hdelete]

/-- A round adds the lines it ends to the history. -/
theorem HistoryInv.step (h : HistoryInv s lines) (hshort : s.Short complete input)
    (hnul : ∀ line ∈ s.enteredIn input, ∀ b ∈ line, b ≠ 0) :
    ∃ s', s.step complete input = some s' ∧ (input.endsLine = true → Fresh s') ∧
      HistoryInv s' (lines ++ s.enteredIn input) := by
  obtain ⟨hroom, htab⟩ := hshort
  have hplain : (s.stat.read input.ch).2 = some (keyOf input.ch) →
      ∃ s', { s with stat := .waitNormal }.plainKey complete input = some s' ∧
        (input.endsLine = true → Fresh s') ∧ HistoryInv s' (lines ++ s.enteredIn input) := by
    intro hread
    have hroom' : keyOf input.ch ≠ .delete → s.linePosition < FINSH_CMD_SIZE :=
      fun hne => hroom (usesLine_of_read hread hne)
    refine (h.withStat .waitNormal).plainKey rfl hroom' htab fun hends hsome => ?_
    apply hnul
    rw [State.enteredIn, if_pos ⟨hends, hsome⟩]
    exact mem_singleton_self _
  unfold InputStat.read at hplain
  unfold State.step
  by_cases hesc : input.ch = 0x1b
  · rw [if_pos hesc]
    exact kept_of_quiet (endsLine_eq_false hesc (by decide) (by decide)) ⟨_, rfl, h.withStat _⟩
  · rw [if_neg hesc] at hplain ⊢
    cases hstat : s.stat with
    | waitNormal =>
      have hsame : { s with stat := .waitNormal } = s := by rw [← hstat]
      rw [hsame, hstat] at hplain
      exact hplain rfl
    | waitSpecKey =>
      rw [hstat] at hplain
      by_cases hfunc : input.ch = 0x5b
      · rw [if_pos hfunc]
        exact kept_of_quiet (endsLine_eq_false hfunc (by decide) (by decide)) ⟨_, rfl, h.withStat _⟩
      · rw [if_neg hfunc] at hplain ⊢
        exact hplain rfl
    | waitFuncKey =>
      rw [hstat] at hplain
      have hnormal := h.withStat .waitNormal
      by_cases hup : input.ch = 0x41
      · rw [if_pos hup]
        exact kept_of_quiet (endsLine_eq_false hup (by decide) (by decide)) hnormal.upKey
      · rw [if_neg hup] at hplain ⊢
        by_cases hdown : input.ch = 0x42
        · rw [if_pos hdown]
          exact kept_of_quiet (endsLine_eq_false hdown (by decide) (by decide)) hnormal.downKey
        · rw [if_neg hdown] at hplain ⊢
          by_cases hleft : input.ch = 0x44
          · rw [if_pos hleft]
            exact kept_of_quiet (endsLine_eq_false hleft (by decide) (by decide))
              ⟨_, rfl, hnormal.leftKey⟩
          · rw [if_neg hleft] at hplain ⊢
            by_cases hright : input.ch = 0x43
            · rw [if_pos hright]
              exact kept_of_quiet (endsLine_eq_false hright (by decide) (by decide))
                ⟨_, rfl, hnormal.rightKey⟩
            · rw [if_neg hright] at hplain ⊢
              exact hplain rfl

theorem HistoryInv.run (h : HistoryInv s lines) (hshort : RunShort complete s inputs)
    (hnul : ∀ line ∈ entered complete s inputs, ∀ b ∈ line, b ≠ 0) :
    ∃ s', s.run complete inputs = some s' ∧
      (∀ enter ∈ inputs.getLast?, enter.endsLine = true → Fresh s') ∧
      HistoryInv s' (lines ++ entered complete s inputs) := by
  induction inputs generalizing s lines with
  | nil =>
    rw [entered, append_nil]
    exact ⟨s, rfl, by simp, h⟩
  | cons input inputs ih =>
    obtain ⟨hfirst, hrest⟩ := hshort
    rw [entered] at hnul
    obtain ⟨s', hstep, hfresh, hinv⟩ := h.step hfirst fun line hmem =>
      hnul line (mem_append_left _ hmem)
    have hentered : entered complete s (input :: inputs) =
        s.enteredIn input ++ entered complete s' inputs := by
      rw [entered, hstep]
    rw [hstep] at hnul
    obtain ⟨s'', hrun, hlast, hinv'⟩ := ih hinv (hrest s' hstep) fun line hmem =>
      hnul line (mem_append_right _ hmem)
    refine ⟨s'', ?_, ?_, ?_⟩
    · rw [State.run, foldlM_cons, hstep]
      exact hrun
    · cases inputs with
      | nil =>
        obtain rfl := some.inj hrun
        intro enter hmem
        rw [getLast?_singleton, mem_some_iff] at hmem
        exact hmem ▸ hfresh
      | cons next rest =>
        rw [getLast?_cons_cons]
        exact hlast
    · rw [hentered, ← append_assoc]
      exact hinv'

/-- The shell after `m` times Up. -/
structure Recalled (s : State) (lines : List (List Byte)) (m : ℕ) : Prop where
  inv : HistoryInv s lines
  stat : s.stat = .waitNormal
  current : s.currentHistory = s.historyCount - m
  le : m ≤ s.historyCount
  displays : Displays s (lines.getD (lines.length - m) [])

theorem Fresh.recalled (hfresh : Fresh s) (h : HistoryInv s lines) : Recalled s lines 0 :=
  { hfresh with
    inv := h
    le := Nat.zero_le _
    displays := by
      rw [Nat.sub_zero, getD_eq_default _ _ le_rfl]
      exact hfresh.displays }

theorem Recalled.upKey (h : Recalled s lines m) :
    ∃ s', s.upKey = some s' ∧ s'.historyCount = s.historyCount ∧
      Recalled s' lines (min (m + 1) s.historyCount) := by
  have hcurrent := h.current
  have hle := h.le
  have hcount := h.inv.count_eq
  unfold State.upKey
  by_cases hpos : 0 < s.currentHistory
  · obtain ⟨s', hcopy, hinv, hstat, hsame, hrow, hdisplays⟩ :=
      h.inv.copyHistory (by lia : s.currentHistory - 1 < s.historyCount)
    have hmin : min (m + 1) s.historyCount = m + 1 := by lia
    have hline : lines.length - FINSH_HISTORY_LINES + (s.currentHistory - 1) =
        lines.length - (m + 1) := by lia
    rw [getD_lastLines, hline] at hdisplays
    rw [if_pos hpos, hmin]
    refine ⟨s', hcopy, hsame, hinv, hstat.trans h.stat, ?_, ?_, hdisplays⟩
    · rw [hrow, hsame]
      lia
    · rw [hsame]
      lia
  · have hmin : min (m + 1) s.historyCount = m := by lia
    have hzero : s.currentHistory = 0 := by lia
    have hsame : { s with currentHistory := 0 } = s := by rw [← hzero]
    rw [if_neg hpos, hmin, hsame]
    exact ⟨s, rfl, rfl, h⟩

theorem step_upKey {a b c : Input} (hstat : s.stat = .waitNormal)
    (hkeys : [a, b, c].map Input.ch = [0x1b, 0x5b, 0x41]) : s.run complete [a, b, c] = s.upKey := by
  simp only [map_cons, map_nil, cons.injEq, and_true] at hkeys
  obtain ⟨ha, hb, hc⟩ := hkeys
  have hsame : { s with stat := .waitNormal } = s := by rw [← hstat]
  have hfirst : s.step complete a = some { s with stat := .waitSpecKey } := by
    rw [State.step, if_pos ha]
  have hsecond : { s with stat := .waitSpecKey }.step complete b =
      some { s with stat := .waitFuncKey } := by
    rw [State.step, hb]
    rfl
  have hthird : { s with stat := .waitFuncKey }.step complete c = s.upKey := by
    rw [State.step, hc]
    exact congrArg State.upKey hsame
  rw [State.run, foldlM_cons, hfirst, bind_eq_bind, bind_some, foldlM_cons,
    hsecond, bind_eq_bind, bind_some, foldlM_cons, hthird]
  cases s.upKey <;> rfl

theorem Recalled.ups (h : Recalled s lines m) (j : ℕ) (hkeys : inputs.map Input.ch = upKeys j) :
    ∃ s', s.run complete inputs = some s' ∧ Recalled s' lines (min (m + j) s.historyCount) := by
  induction j generalizing s m inputs with
  | zero =>
    have hle := h.le
    have hnil : inputs = [] := map_eq_nil_iff.mp hkeys
    have hmin : min (m + 0) s.historyCount = m := by lia
    rw [hnil, hmin]
    exact ⟨s, rfl, h⟩
  | succ j ih =>
    have hsplit : upKeys (j + 1) = [0x1b, 0x5b, 0x41] ++ upKeys j := by
      rw [upKeys, replicate_succ, flatten_cons]
      rfl
    rw [hsplit] at hkeys
    obtain ⟨front, rest, rfl, hfront, hrest⟩ := map_eq_append_iff.mp hkeys
    obtain ⟨a, b, c, rfl⟩ : ∃ a b c, front = [a, b, c] :=
      length_eq_three.mp (by simpa using congrArg List.length hfront)
    obtain ⟨s', hup, hsame, hrecalled⟩ := h.upKey
    obtain ⟨s'', hrun, hdone⟩ := ih hrecalled hrest
    have hmin : min (min (m + 1) s.historyCount + j) s'.historyCount =
        min (m + (j + 1)) s.historyCount := by lia
    rw [hmin] at hdone
    refine ⟨s'', ?_, hdone⟩
    rw [State.run, foldlM_append]
    exact bind_eq_some_iff.mpr ⟨s', (step_upKey h.stat hfront).trans hup, hrun⟩

theorem HistoryInv.recalls (h : HistoryInv s lines) (hfresh : Fresh s) :
    Recalls complete s lines := by
  intro j inputs hkeys
  obtain ⟨s', hrun, hrecalled⟩ := (hfresh.recalled h).ups j hkeys
  rw [Nat.zero_add] at hrecalled
  exact ⟨s', hrun, hrecalled.displays⟩

/-- In every session with lines shorter than `FINSH_CMD_SIZE` and without null characters, the
history holds the last lines entered, oldest first, and the Up key brings them back. -/
theorem history_recalls (complete : (ℕ → Byte) → ℕ → Byte) (inputs : List Input)
    (hshort : RunShort complete init inputs)
    (hnul : ∀ line ∈ entered complete init inputs, ∀ b ∈ line, b ≠ 0) :
    ∃ s, init.run complete inputs = some s ∧
      ShowsHistory s (Editor.lastLines FINSH_HISTORY_LINES (entered complete init inputs)) ∧
      ∀ enter ∈ inputs.getLast?, enter.endsLine = true →
        Recalls complete s (entered complete init inputs) := by
  obtain ⟨s, hrun, hfresh, hinv⟩ := historyInv_init.run hshort hnul
  rw [nil_append] at hinv
  exact ⟨s, hrun, hinv.shows, fun enter hlast hends => hinv.recalls (hfresh enter hlast hends)⟩

theorem history_recalls_edited :
    ∃ s, init.run id ([0x61, 0x0d, 0x1b, 0x5b, 0x41, 0x62, 0x0d].map fun ch => ⟨ch, none⟩) =
        some s ∧ ShowsHistory s (Editor.lastLines FINSH_HISTORY_LINES (entered id init
        ([0x61, 0x0d, 0x1b, 0x5b, 0x41, 0x62, 0x0d].map fun ch => ⟨ch, none⟩))) ∧
      ∀ enter ∈ ([0x61, 0x0d, 0x1b, 0x5b, 0x41, 0x62, 0x0d].map
          fun ch => (⟨ch, none⟩ : Input)).getLast?, enter.endsLine = true →
        Recalls id s (entered id init
          ([0x61, 0x0d, 0x1b, 0x5b, 0x41, 0x62, 0x0d].map fun ch => ⟨ch, none⟩)) :=
  history_recalls id _ (by decide) (by
    have hlines : entered id init ([0x61, 0x0d, 0x1b, 0x5b, 0x41, 0x62, 0x0d].map
        fun ch => ⟨ch, none⟩) = [[0x61], [0x61, 0x62]] := by decide
    rw [hlines]
    simp)

end Steps

end Shell
end RtThread
