import RtThread.PrintfSizes

/-!
# Console output

`rt_kprintf` gives `rt_vsnprintf` all bytes of `rt_log_buf` but one, and lets the
console device write as many bytes as there are in the buffer but one.  The two limits
differ by the terminating byte.
-/

namespace RtThread.Printf

open List Word

def EmitsText (strings : UInt32 → CString) (b : LogBuffer) (fmt : CString) (args : VaList) :
    Prop :=
  ∀ s flag, s.consoleDevice = some flag → ∃ bytes, (rtKprintf strings b s fmt args).output =
      s.output ++ [.deviceWrite (flag ||| rtDeviceFlagStream) bytes] ∧
    bytes <+: formatted strings fmt args ∧
    (nul ∉ formatted strings fmt args → nul ∉ bytes)

section Console

variable {strings : UInt32 → CString} {b : LogBuffer} {fmt : CString} {args : VaList}

def deviceBytes (strings : UInt32 → CString) (b : LogBuffer) (fmt : CString)
    (args : VaList) (mem : ℕ → Char) : List Char :=
  let result := rtVsnprintf strings mem b.destination fmt args
  bytesAt result.2 b.rtLogBuf (logLength b result.1)

theorem rtKprintf_output {s : ConsoleState} {flag : ℕ} (hdevice : s.consoleDevice = some flag) :
    (rtKprintf strings b s fmt args).output =
      s.output ++ [.deviceWrite (flag ||| rtDeviceFlagStream)
        (deviceBytes strings b fmt args s.mem)] := by
  unfold rtKprintf
  simp only [hdevice]
  rfl

theorem emitsText_iff : EmitsText strings b fmt args ↔
      ∀ mem, deviceBytes strings b fmt args mem <+: formatted strings fmt args ∧
        (nul ∉ formatted strings fmt args → nul ∉ deviceBytes strings b fmt args mem) := by
  constructor
  · intro hemits mem
    rcases hemits ⟨mem, some 0, []⟩ 0 rfl with ⟨bytes, houtput, hbytes⟩
    rw [rtKprintf_output rfl] at houtput
    have heq : deviceBytes strings b fmt args mem = bytes := by simpa using houtput
    rw [heq]
    exact hbytes
  · intro hbytes s flag hdevice
    exact ⟨_, rtKprintf_output hdevice, hbytes s.mem⟩

theorem logLength_eq (mem : ℕ → Char) :
    logLength b (rtVsnprintf strings mem b.destination fmt args).1 = min (b.consolebufSize - 1)
        ((b.destination.shown strings fmt args).length % 4294967296) := by
  have hlength : ∀ n : ℕ, ((n : ℤ).bmod 4294967296 % 4294967296).toNat = n % 4294967296 := by
    intro n
    rw [Int.bmod_def]
    split_ifs
    · lia
    · lia
  rw [rtVsnprintf_returns]
  unfold logLength
  simp only [hlength]
  split_ifs
  · lia
  · lia

theorem getElem?_deviceBytes (mem : ℕ → Char) (i : ℕ) : (deviceBytes strings b fmt args mem)[i]? =
      if i < min (b.consolebufSize - 1) ((b.destination.shown strings fmt args).length % 4294967296)
      then some ((rtVsnprintf strings mem b.destination fmt args).2 (b.rtLogBuf + i))
      else none := by
  unfold deviceBytes bytesAt
  simp only [logLength_eq, getElem?_map]
  split_ifs with hi
  · rw [getElem?_range hi]
    rfl
  · rw [getElem?_eq_none]
    · rfl
    · rw [length_range]
      exact not_lt.mp hi

@[simp]
theorem destination_buf : b.destination.buf = b.rtLogBuf := rfl

@[simp]
theorem destination_size : b.destination.size = b.consolebufSize - 1 := rfl

theorem destination_last (hpos : 1 < b.consolebufSize) :
    b.destination.last = b.rtLogBuf + b.consolebufSize - 2 := by
  have hfits := b.fits
  rw [b.destination.last_eq]
  · rw [destination_buf, destination_size]
    lia
  · exact Nat.sub_pos_of_lt hpos
  · rw [destination_buf, destination_size]
    lia

theorem destination_fitsAt (hpos : 1 < b.consolebufSize) {p : ℕ} (hp : p + 2 ≤ b.consolebufSize) :
    b.destination.fitsAt p = true := by
  have hfits := b.fits
  apply decide_eq_true
  rw [destination_last hpos, destination_buf, add32_eq_of_lt (by omega)]
  omega

theorem rtVsnprintf_logBuf (hpos : 1 < b.consolebufSize) (mem : ℕ → Char)
    (hlength : b.rtLogBuf + (b.destination.shown strings fmt args).length < 4294967296)
    {i : ℕ} (hi : i + 2 ≤ b.consolebufSize) :
    (rtVsnprintf strings mem b.destination fmt args).2 (b.rtLogBuf + i) =
      if i = min (b.destination.shown strings fmt args).length (b.consolebufSize - 2) then nul
      else ((b.destination.shown strings fmt args)[i]?).getD (mem (b.rtLogBuf + i)) := by
  have hfits := b.fits
  have hplace : b.destination.nulPlace (b.destination.shown strings fmt args).length = b.rtLogBuf +
        min (b.destination.shown strings fmt args).length (b.consolebufSize - 2) := by
    unfold Destination.nulPlace
    rw [destination_last hpos, destination_buf, add32_eq_of_lt hlength]
    split_ifs
    · lia
    · lia
  have hsub : sub32 (b.rtLogBuf + i) b.destination.buf = i := by
    rw [destination_buf]
    unfold sub32
    lia
  rw [rtVsnprintf_mem mem (by lia) (by lia), hplace, hsub, destination_last hpos,
    if_pos (show b.rtLogBuf + i ≤ b.rtLogBuf + b.consolebufSize - 2 by lia)]
  simp only [Nat.add_left_cancel_iff]

theorem deviceBytes_of_fits (hfits : (formatted strings fmt args).length + 2 ≤ b.consolebufSize)
    (mem : ℕ → Char) : deviceBytes strings b fmt args mem = formatted strings fmt args := by
  have hend := b.fits
  have hpos : 1 < b.consolebufSize := by lia
  have hshown : b.destination.shown strings fmt args = formatted strings fmt args := by
    apply putText_eq
    intro p hp
    have hle := signPlaces_le hp
    unfold formatted at hfits
    exact destination_fitsAt hpos (by lia)
  apply ext_getElem?
  intro i
  rw [getElem?_deviceBytes, hshown]
  split_ifs with hi
  · rw [rtVsnprintf_logBuf hpos mem (by rw [hshown]; lia) (by lia), hshown,
      if_neg (by lia), getElem?_eq_getElem (by lia), Option.getD_some]
  · rw [getElem?_eq_none (by lia)]

theorem deviceBytes_of_long (hpos : 1 < b.consolebufSize)
    (hlong : b.consolebufSize < (formatted strings fmt args).length + 2)
    (hend : b.rtLogBuf + (formatted strings fmt args).length + fmt.chars.length < 4294967296)
    (mem : ℕ → Char) : deviceBytes strings b fmt args mem =
      (formatted strings fmt args).take (b.consolebufSize - 2) ++ [nul] := by
  have hlength := length_putText b.destination.fitsAt 0 (directives strings fmt.chars args)
  have hcount := length_directives strings fmt.chars args
  have hshown : (formatted strings fmt args).length ≤
        (b.destination.shown strings fmt args).length ∧
      b.rtLogBuf + (b.destination.shown strings fmt args).length < 4294967296 := by
    unfold formatted Destination.shown at *
    lia
  have hfront : ((formatted strings fmt args).take (b.consolebufSize - 2)).length =
      b.consolebufSize - 2 := by
    rw [length_take]
    lia
  apply ext_getElem?
  intro i
  rw [getElem?_deviceBytes]
  split_ifs with hi
  · rw [rtVsnprintf_logBuf hpos mem hshown.2 (by lia)]
    by_cases hlast : i = b.consolebufSize - 2
    · rw [if_pos (by lia), getElem?_append_right (by lia), hfront, hlast, Nat.sub_self]
      rfl
    · have hsame : (b.destination.shown strings fmt args)[i]? = (formatted strings fmt args)[i]? :=
        putText_getElem? fun p hp => destination_fitsAt hpos (by lia)
      rw [if_neg (by lia), hsame, getElem?_append_left (by lia),
        getElem?_take_of_lt (by lia), getElem?_eq_getElem (by lia),
        Option.getD_some]
  · rw [getElem?_eq_none]
    rw [length_append, hfront, length_singleton]
    lia

theorem take_append_prefix_iff {text : List Char} {n : ℕ} {c : Char} (hn : n < text.length) :
    text.take n ++ [c] <+: text ↔ text[n]? = some c := by
  have htake : text.take (n + 1) = text.take n ++ [text[n]] := take_succ_eq_append_getElem hn
  have hlength : (text.take n ++ [c]).length = n + 1 := by
    rw [length_append, length_take, length_singleton]
    omega
  rw [prefix_iff_eq_take, hlength, htake, append_cancel_left_eq,
    getElem?_eq_getElem hn, singleton_inj, Option.some.injEq]
  exact eq_comm

/-- `rt_kprintf` emits the front of the text and nothing else when the text is two bytes
shorter than the buffer; a longer one is followed by the terminating byte. -/
theorem kprintf_emits_iff (strings : UInt32 → CString) (b : LogBuffer) (fmt : CString)
    (args : VaList) :
    (b.consolebufSize = 1 ∨ (formatted strings fmt args).length + 2 ≤ b.consolebufSize →
      EmitsText strings b fmt args) ∧
    (b.rtLogBuf + (formatted strings fmt args).length + fmt.chars.length < 4294967296 →
      (EmitsText strings b fmt args ↔ b.consolebufSize = 1 ∨
        (formatted strings fmt args).length + 2 ≤ b.consolebufSize ∨
        (formatted strings fmt args)[b.consolebufSize - 2]? = some nul)) := by
  have honly : b.consolebufSize = 1 → EmitsText strings b fmt args := by
    intro hone
    rw [emitsText_iff]
    intro mem
    have hnone : deviceBytes strings b fmt args mem = [] := by
      apply eq_nil_of_length_eq_zero
      unfold deviceBytes bytesAt
      rw [length_map, length_range, logLength_eq, hone]
      exact Nat.zero_min _
    rw [hnone]
    exact ⟨List.nil_prefix, fun _ => not_mem_nil⟩
  have hfits : (formatted strings fmt args).length + 2 ≤ b.consolebufSize →
      EmitsText strings b fmt args := by
    intro hfits
    rw [emitsText_iff]
    intro mem
    rw [deviceBytes_of_fits hfits]
    exact ⟨prefix_rfl, id⟩
  refine ⟨fun h => h.elim honly hfits, ?_⟩
  intro hend
  by_cases hone : b.consolebufSize = 1
  · exact iff_of_true (honly hone) (.inl hone)
  · by_cases hshort : (formatted strings fmt args).length + 2 ≤ b.consolebufSize
    · exact iff_of_true (hfits hshort) (.inr (.inl hshort))
    · have hpos := b.size_pos
      have hbytes : ∀ mem, deviceBytes strings b fmt args mem =
          (formatted strings fmt args).take (b.consolebufSize - 2) ++ [nul] :=
        deviceBytes_of_long (by omega) (by omega) hend
      have hlength : b.consolebufSize - 2 < (formatted strings fmt args).length := by omega
      rw [emitsText_iff]
      simp only [hbytes, take_append_prefix_iff hlength]
      constructor
      · intro h
        exact .inr (.inr (h fun _ => nul).1)
      · intro h mem
        have hnul := (h.resolve_left hone).resolve_left hshort
        exact ⟨hnul, fun hnot => absurd (mem_of_getElem? hnul) hnot⟩

end Console

def sampleLogBuffer : LogBuffer := ⟨4096, 4, by decide, by decide⟩

def sampleLine : CString := ⟨['a', 'b', 'c'], by decide, by decide⟩

theorem kprintf_emits_in_sample :
    EmitsText noStrings sampleLogBuffer ⟨['a', 'b'], by decide, by decide⟩ minusOne :=
  (kprintf_emits_iff noStrings sampleLogBuffer _ minusOne).1 (.inr (by decide +kernel))

/-- Three characters in a console buffer of four bytes. -/
theorem not_emits_in_sample :
    deviceBytes noStrings sampleLogBuffer sampleLine minusOne (fun _ => nul) = ['a', 'b', nul] ∧
    formatted noStrings sampleLine minusOne = ['a', 'b', 'c'] ∧
    ¬EmitsText noStrings sampleLogBuffer sampleLine minusOne := by
  have hbytes : deviceBytes noStrings sampleLogBuffer sampleLine minusOne (fun _ => nul) =
      ['a', 'b', nul] := by decide +kernel
  have htext : formatted noStrings sampleLine minusOne = ['a', 'b', 'c'] := by
    decide +kernel
  refine ⟨hbytes, htext, ?_⟩
  intro hemits
  have hstarts := (emitsText_iff.mp hemits fun _ => nul).1
  rw [hbytes, htext] at hstarts
  exact absurd hstarts (by decide)

end RtThread.Printf
