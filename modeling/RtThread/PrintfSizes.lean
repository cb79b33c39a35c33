import RtThread.PrintfText

/-!
# The size of the buffer

`rt_vsnprintf` keeps the front of the text and returns the length of all of it.  It
does so for a buffer of at least one byte, as long as the sign of every number which is
filled up stands within the buffer.
-/

namespace RtThread.Printf

open Function Word Destination

def formatted (strings : UInt32 → CString) (fmt : CString) (args : VaList) : List Char :=
  fullText (directives strings fmt.chars args)

def formattedSigns (strings : UInt32 → CString) (fmt : CString) (args : VaList) : List ℕ :=
  signPlaces 0 (directives strings fmt.chars args)

theorem signPlaces_le {pos p : ℕ} {ds : List Directive} (hp : p ∈ signPlaces pos ds) :
    p ≤ pos + (fullText ds).length := by
  induction ds generalizing pos with
  | nil => cases hp
  | cons d ds ih =>
    rw [fullText_cons, List.length_append]
    have hlater : p ∈ signPlaces (pos + d.text.length) ds →
        p ≤ pos + (d.text.length + (fullText ds).length) := by
      intro hp
      have hle := ih hp
      omega
    rw [signPlaces] at hp
    split_ifs at hp
    · rcases List.mem_cons.mp hp with hfirst | hrest
      · omega
      · exact hlater hrest
    · exact hlater hp

namespace Destination

variable (d : Destination)

def fitsAt (p : ℕ) : Bool := decide (add32 d.buf p ≤ d.last)

def shown (strings : UInt32 → CString) (fmt : CString) (args : VaList) : List Char :=
  putText d.fitsAt 0 (directives strings fmt.chars args)

def nulPlace (length : ℕ) : ℕ :=
  if add32 d.buf length ≤ d.last then add32 d.buf length else d.last

theorem last_lt : d.last < 4294967296 := by
  unfold last sub32
  simp only
  split_ifs
  · decide
  · exact Nat.mod_lt _ (by decide)

theorem last_eq (hsize : 0 < d.size) (hfits : d.buf + d.size ≤ 4294967296) :
    d.last = d.buf + d.size - 1 := by
  unfold last sub32 add32
  simp only
  split_ifs
  · lia
  · lia

theorem last_eq_top (hsize : d.size = 0 ∨ 4294967296 < d.buf + d.size) : d.last = 4294967295 := by
  have hlt := d.size_lt
  unfold last sub32 add32
  simp only
  split_ifs
  · rfl
  · lia

end Destination

section Calls

variable {strings : UInt32 → CString} {d : Destination} {fmt : CString} {args : VaList}

theorem rtVsnprintf_window (mem : ℕ → Char) :
    (directives strings fmt.chars args).foldl (printDirective (windowSink d.last)) ⟨d.buf, mem⟩ =
      (windowSink d.last).puts ⟨d.buf, mem⟩ (d.shown strings fmt args) := by
  apply foldl_printDirective d.fitsAt 0
  intro text
  rw [zero_add]
  unfold fitsAt
  rw [← windowSink_puts_str d.buf_lt]
  rfl

theorem rtVsnprintf_str (mem : ℕ → Char) :
    ((directives strings fmt.chars args).foldl (printDirective (windowSink d.last))
        ⟨d.buf, mem⟩).str = add32 d.buf (d.shown strings fmt args).length := by
  rw [rtVsnprintf_window]
  exact windowSink_puts_str d.buf_lt

theorem rtVsnprintf_returns (mem : ℕ → Char) : (rtVsnprintf strings mem d fmt args).1 =
      ((d.shown strings fmt args).length : ℤ).bmod 4294967296 := by
  have hlength : sub32 (add32 d.buf (d.shown strings fmt args).length) d.buf =
      (d.shown strings fmt args).length % 4294967296 := by
    have hbuf := d.buf_lt
    unfold sub32 add32
    omega
  unfold rtVsnprintf
  dsimp only
  rw [rtVsnprintf_str, hlength, Int.natCast_emod]
  exact Int.emod_bmod _ _

theorem rtVsnprintf_mem (mem : ℕ → Char) (hlength : (d.shown strings fmt args).length ≤ 4294967296)
    {a : ℕ} (ha : a < 4294967296) : (rtVsnprintf strings mem d fmt args).2 a =
      if a = d.nulPlace (d.shown strings fmt args).length then nul
      else if a ≤ d.last then ((d.shown strings fmt args)[sub32 a d.buf]?).getD (mem a)
      else mem a := by
  unfold rtVsnprintf nulPlace
  dsimp only
  rw [rtVsnprintf_str, rtVsnprintf_window]
  split_ifs with hfits hplace hlast hplace hlast
  · rw [hplace, update_self]
  · rw [update_of_ne hplace, windowSink_puts_mem d.buf_lt hlength ha, if_pos hlast]
  · rw [update_of_ne hplace, windowSink_puts_mem d.buf_lt hlength ha, if_neg hlast]
  · rw [hplace, update_self]
  · rw [update_of_ne hplace, windowSink_puts_mem d.buf_lt hlength ha, if_pos hlast]
  · rw [update_of_ne hplace, windowSink_puts_mem d.buf_lt hlength ha, if_neg hlast]

end Calls

/-- `rt_vsnprintf` writes into its buffer only, leaves the front of the text with a
terminating byte there, and returns the length of the text. -/
structure Bounded (strings : UInt32 → CString) (d : Destination) (fmt : CString)
    (args : VaList) : Prop where
  writes : ∀ mem, ∀ a < 4294967296, (∀ i < d.size, a ≠ add32 d.buf i) →
    (rtVsnprintf strings mem d fmt args).2 a = mem a
  kept : 0 < d.size → ∀ mem i c, i < d.size - 1 → (formatted strings fmt args)[i]? = some c →
    (rtVsnprintf strings mem d fmt args).2 (add32 d.buf i) = c
  terminated : 0 < d.size → ∀ mem, (rtVsnprintf strings mem d fmt args).2
      (add32 d.buf (min (formatted strings fmt args).length (d.size - 1))) = nul
  returns : ∀ mem, (rtVsnprintf strings mem d fmt args).1 = (formatted strings fmt args).length

/-- The buffer has room for the signs of the text, and the whole text would stand in the
address space; with a size which leads out of that, it has room for the text. -/
structure Accommodates (d : Destination) (text : List Char) (signs : List ℕ) : Prop where
  size_pos : 0 < d.size
  short : text.length < 2147483648
  inside : d.buf + d.size ≤ 4294967296 → d.buf + text.length < 4294967296 ∧ ∀ p ∈ signs, p < d.size
  outside : 4294967296 < d.buf + d.size → text.length < d.size

section Sizes

variable {strings : UInt32 → CString} {d : Destination} {fmt : CString} {args : VaList}

theorem sub32_add32 {buf i : ℕ} (hbuf : buf < 4294967296) (hi : i < 4294967296) :
    sub32 (add32 buf i) buf = i := by
  unfold sub32 add32
  omega

theorem add32_sub32 {a buf : ℕ} (ha : a < 4294967296) (hbuf : buf < 4294967296) :
    add32 buf (sub32 a buf) = a := by
  unfold sub32 add32
  omega

theorem add32_inj
    {buf i j : ℕ} (hbuf : buf < 4294967296) (hi : i < 4294967296) (hj : j < 4294967296)
    (heq : add32 buf i = add32 buf j) : i = j := by
  rw [← sub32_add32 hbuf hi, heq, sub32_add32 hbuf hj]

theorem Accommodates.fitsAt {text : List Char} {signs : List ℕ} (h : Accommodates d text signs) :
    ∀ p ∈ signs, d.fitsAt p = true := by
  intro p hp
  apply decide_eq_true
  rcases Nat.lt_or_ge 4294967296 (d.buf + d.size) with houtside | hinside
  · rw [d.last_eq_top (.inr houtside)]
    exact Nat.le_of_lt_succ (add32_lt _ _)
  · have hlt := (h.inside hinside).2 p hp
    rw [d.last_eq h.size_pos hinside, add32_eq_of_lt (by omega)]
    omega

theorem Accommodates.shown_eq
    (h : Accommodates d (formatted strings fmt args) (formattedSigns strings fmt args)) :
    d.shown strings fmt args = formatted strings fmt args :=
  putText_eq h.fitsAt

theorem Accommodates.nulPlace_eq
    {text : List Char} {signs : List ℕ} (h : Accommodates d text signs) :
    d.nulPlace text.length = add32 d.buf (min text.length (d.size - 1)) := by
  have hpos := h.size_pos
  unfold nulPlace
  rcases Nat.lt_or_ge 4294967296 (d.buf + d.size) with houtside | hinside
  · rw [d.last_eq_top (.inr houtside), if_pos (Nat.le_of_lt_succ (add32_lt _ _)),
      min_eq_left (Nat.le_sub_one_of_lt (h.outside houtside))]
  · have hend := (h.inside hinside).1
    rw [d.last_eq hpos hinside, add32_eq_of_lt hend]
    split_ifs with hfits
    · rw [min_eq_left (by lia), add32_eq_of_lt hend]
    · rw [min_eq_right (by lia), add32_eq_of_lt (by lia)]
      lia

theorem Accommodates.place_le_last
    {text : List Char} {signs : List ℕ} (h : Accommodates d text signs)
    {i : ℕ} (hi : i < d.size) : add32 d.buf i ≤ d.last := by
  rcases Nat.lt_or_ge 4294967296 (d.buf + d.size) with houtside | hinside
  · rw [d.last_eq_top (.inr houtside)]
    exact Nat.le_of_lt_succ (add32_lt _ _)
  · rw [d.last_eq h.size_pos hinside, add32_eq_of_lt (by omega)]
    omega

theorem Accommodates.inBuffer {text : List Char} {signs : List ℕ} (h : Accommodates d text signs)
    {a : ℕ} (hlast : a ≤ d.last) (htext : sub32 a d.buf < text.length) :
    sub32 a d.buf < d.size := by
  rcases Nat.lt_or_ge 4294967296 (d.buf + d.size) with houtside | hinside
  · exact htext.trans (h.outside houtside)
  · have hend := (h.inside hinside).1
    have hpos := h.size_pos
    rw [d.last_eq hpos hinside] at hlast
    unfold sub32 at htext ⊢
    lia

theorem Accommodates.mem_eq
    (h : Accommodates d (formatted strings fmt args) (formattedSigns strings fmt args))
    (mem : ℕ → Char) {a : ℕ} (ha : a < 4294967296) : (rtVsnprintf strings mem d fmt args).2 a =
      if a = add32 d.buf (min (formatted strings fmt args).length (d.size - 1)) then nul
      else if a ≤ d.last then ((formatted strings fmt args)[sub32 a d.buf]?).getD (mem a)
      else mem a := by
  have hlength : (d.shown strings fmt args).length ≤ 4294967296 := by
    rw [h.shown_eq]
    exact h.short.le.trans (by decide)
  rw [rtVsnprintf_mem mem hlength ha, h.shown_eq, h.nulPlace_eq]

theorem Accommodates.bounded
    (h : Accommodates d (formatted strings fmt args) (formattedSigns strings fmt args)) :
    Bounded strings d fmt args := by
  have hshort := h.short
  have hpos := h.size_pos
  have hbuf := d.buf_lt
  constructor
  · intro mem a ha hout
    rw [h.mem_eq mem ha, if_neg (hout _ (by lia))]
    split_ifs with hlast
    · by_cases htext : sub32 a d.buf < (formatted strings fmt args).length
      · have hin := h.inBuffer hlast htext
        exact absurd (add32_sub32 ha hbuf).symm (hout _ hin)
      · rw [List.getElem?_eq_none (not_lt.mp htext), Option.getD_none]
    · rfl
  · intro _ mem i c hi hc
    have hlength := (List.getElem?_eq_some_iff.mp hc).1
    have hplace : add32 d.buf i ≠
        add32 d.buf (min (formatted strings fmt args).length (d.size - 1)) := by
      intro heq
      have hsame := add32_inj hbuf (by lia) (by lia) heq
      lia
    rw [h.mem_eq mem (add32_lt _ _), if_neg hplace, if_pos (h.place_le_last (by lia)),
      sub32_add32 hbuf (by lia), hc, Option.getD_some]
  · intro _ mem
    rw [h.mem_eq mem (add32_lt _ _), if_pos rfl]
  · intro mem
    rw [rtVsnprintf_returns, h.shown_eq]
    exact Int.bmod_eq_of_le (by lia) (by lia)

section

variable (h : Bounded strings d fmt args)
include h

theorem Bounded.shown_length : (formatted strings fmt args).length < 2147483648 ∧
      (d.shown strings fmt args).length = (formatted strings fmt args).length := by
  have hreturns := h.returns fun _ => nul
  rw [rtVsnprintf_returns] at hreturns
  have hlength := length_putText d.fitsAt 0 (directives strings fmt.chars args)
  have hcount := length_directives strings fmt.chars args
  have hfmt := fmt.length_lt
  unfold formatted shown at *
  rw [Int.bmod_def] at hreturns
  split_ifs at hreturns
  · lia
  · lia

theorem Bounded.fitsAt : ∀ p ∈ formattedSigns strings fmt args, d.fitsAt p = true := by
  intro p hp
  cases hfits : d.fitsAt p with
  | true => rfl
  | false =>
    have hlt := length_putText_lt hp hfits
    exact absurd h.shown_length.2 (Nat.ne_of_gt hlt)

theorem Bounded.shown_eq : d.shown strings fmt args = formatted strings fmt args :=
  putText_eq h.fitsAt

theorem Bounded.inBuffer {a : ℕ} (ha : a < 4294967296)
    {c : Char} (hwritten : ∀ mem, (rtVsnprintf strings mem d fmt args).2 a = c) :
    ∃ i < d.size, a = add32 d.buf i := by
  by_contra hnone
  have hout : ∀ i < d.size, a ≠ add32 d.buf i := fun i hi heq => hnone ⟨i, hi, heq⟩
  have hx := h.writes (fun _ => 'x') a ha hout
  have hy := h.writes (fun _ => 'y') a ha hout
  rw [hwritten] at hx hy
  nomatch hx.symm.trans hy

theorem Bounded.mem_eq (mem : ℕ → Char) {a : ℕ} (ha : a < 4294967296) :
    (rtVsnprintf strings mem d fmt args).2 a =
      if a = d.nulPlace (formatted strings fmt args).length then nul
      else if a ≤ d.last then ((formatted strings fmt args)[sub32 a d.buf]?).getD (mem a)
      else mem a := by
  have hshort := h.shown_length.1
  have hlength : (d.shown strings fmt args).length ≤ 4294967296 := by
    rw [h.shown_eq]
    omega
  rw [rtVsnprintf_mem mem hlength ha, h.shown_eq]

theorem Bounded.nulPlace_inBuffer :
    ∃ i < d.size, d.nulPlace (formatted strings fmt args).length = add32 d.buf i := by
  have hlt : d.nulPlace (formatted strings fmt args).length < 4294967296 := by
    unfold nulPlace
    split_ifs
    · exact add32_lt _ _
    · exact d.last_lt
  have hwritten : ∀ mem, (rtVsnprintf strings mem d fmt args).2
      (d.nulPlace (formatted strings fmt args).length) = nul := by
    intro mem
    rw [h.mem_eq mem hlt, if_pos rfl]
  exact h.inBuffer hlt hwritten

theorem Bounded.end_lt (hinside : d.buf + d.size ≤ 4294967296) :
    d.buf + (formatted strings fmt args).length < 4294967296 := by
  by_contra hend
  have hshort := h.shown_length.1
  have hwritten : ∃ c, ∀ mem, (rtVsnprintf strings mem d fmt args).2 0 = c := by
    by_cases hplace : 0 = d.nulPlace (formatted strings fmt args).length
    · refine ⟨nul, fun mem => ?_⟩
      rw [h.mem_eq mem (by decide), if_pos hplace]
    · have hne : d.buf + (formatted strings fmt args).length ≠ 4294967296 := by
        intro heq
        apply hplace
        unfold nulPlace add32
        rw [heq, Nat.mod_self, if_pos (Nat.zero_le _)]
      have htext : sub32 0 d.buf < (formatted strings fmt args).length := by
        unfold sub32
        lia
      refine ⟨(formatted strings fmt args)[sub32 0 d.buf], fun mem => ?_⟩
      rw [h.mem_eq mem (by decide), if_neg hplace, if_pos (Nat.zero_le _),
        List.getElem?_eq_getElem htext, Option.getD_some]
  rcases hwritten with ⟨c, hwritten⟩
  rcases h.inBuffer (by decide) hwritten with ⟨i, hi, hplace⟩
  rw [add32_eq_of_lt (by lia)] at hplace
  lia

theorem Bounded.accommodates :
    Accommodates d (formatted strings fmt args) (formattedSigns strings fmt args) := by
  have hshort := h.shown_length.1
  rcases h.nulPlace_inBuffer with ⟨i, hi, hplace⟩
  have hpos : 0 < d.size := Nat.zero_lt_of_lt hi
  constructor
  · exact hpos
  · exact hshort
  · intro hinside
    have hend := h.end_lt hinside
    refine ⟨hend, ?_⟩
    intro p hp
    have hle := signPlaces_le hp
    have hfits := of_decide_eq_true (h.fitsAt p hp)
    unfold formatted at hend
    rw [d.last_eq hpos hinside, add32_eq_of_lt (by lia)] at hfits
    lia
  · intro houtside
    have hbuf := d.buf_lt
    have hsize := d.size_lt
    unfold nulPlace at hplace
    rw [d.last_eq_top (.inr houtside), if_pos (Nat.le_of_lt_succ (add32_lt _ _))] at hplace
    rw [add32_inj hbuf (by lia) (by lia) hplace]
    exact hi

end

/-- What `rt_vsnprintf` does is bounded by the buffer, and does not depend on its size
otherwise, just when the buffer has room for the signs. -/
theorem vsnprintf_bounded_iff (strings : UInt32 → CString) (d : Destination) (fmt : CString)
    (args : VaList) : Bounded strings d fmt args ↔
      Accommodates d (formatted strings fmt args) (formattedSigns strings fmt args) :=
  ⟨Bounded.accommodates, Accommodates.bounded⟩

theorem rtVsprintf_bounded_iff {buf : ℕ} (hbuf : buf < 4294967296) (hpos : 1 < buf) :
    Bounded strings ⟨buf, 4294967295, hbuf, by decide⟩ fmt args ↔
      (formatted strings fmt args).length < 2147483648 := by
  constructor
  · intro h
    exact h.shown_length.1
  · intro hshort
    apply Accommodates.bounded
    constructor
    · exact Nat.succ_pos 4294967294
    · exact hshort
    · intro hinside
      simp only at hinside
      omega
    · intro _
      simp only
      omega

end Sizes

def noStrings : UInt32 → CString := fun _ => ⟨[], by decide, by decide⟩

def sampleFormat : CString := ⟨['a', '%', '-', '3', 'd'], by decide, by decide⟩

def minusOne : VaList := fun _ => 4294967295

def sampleBuffer (size : ℕ) (hsize : size < 4294967296) : Destination :=
  ⟨4096, size, by decide, hsize⟩

/-- A buffer of one byte, and one of none. -/
theorem not_bounded_in_sample :
    (rtVsnprintf noStrings (fun _ => nul) (sampleBuffer 16 (by decide)) sampleFormat
      minusOne).1 = 4 ∧
    (rtVsnprintf noStrings (fun _ => nul) (sampleBuffer 1 (by decide)) sampleFormat
      minusOne).1 = 5 ∧
    (rtVsnprintf noStrings (fun _ => nul) (sampleBuffer 0 (by decide)) sampleFormat
      minusOne).2 4096 = 'a' ∧
    ¬Bounded noStrings (sampleBuffer 1 (by decide)) sampleFormat minusOne ∧
    ¬Bounded noStrings (sampleBuffer 0 (by decide)) sampleFormat minusOne := by
  have hlength : (formatted noStrings sampleFormat minusOne).length = 4 := by decide +kernel
  have hone : (rtVsnprintf noStrings (fun _ => nul) (sampleBuffer 1 (by decide)) sampleFormat
      minusOne).1 = 5 := by decide +kernel
  have hnone : (rtVsnprintf noStrings (fun _ => nul) (sampleBuffer 0 (by decide)) sampleFormat
      minusOne).2 4096 = 'a' := by decide +kernel
  refine ⟨by decide +kernel, hone, hnone, ?_, ?_⟩
  · intro h
    have hreturns := h.returns fun _ => nul
    rw [hone, hlength] at hreturns
    cases hreturns
  · intro h
    have hwrites := h.writes (fun _ => nul) 4096 (by decide) (by simp [sampleBuffer])
    rw [hnone] at hwrites
    cases hwrites

end RtThread.Printf
