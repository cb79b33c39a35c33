import RtThread.PrintfModel

/-!
# The text of a format

Every directive has a text, the one which is printed where everything fits.  It does not
depend on the sink, with one exception: `print_number` takes a sign into account only
where there is room for it.  Behind the end of the buffer a field which is filled up gets
one character longer.
-/

namespace RtThread.Printf

open List Sink

section Fields

variable {σ : Type} (k : Sink σ) (o : σ)
variable (sign : Option Char) (tmp : List Char) (precision size : ℤ)

def signWidth (counted : Bool) : ℤ := if sign.isSome ∧ counted then 1 else 0

def fieldBody : List Char :=
  List.replicate (precision - tmp.length).toNat '0' ++ tmp.reverse

def fieldShown (zeropad left counted : Bool) : List Char :=
  let pad (counted : Bool) := (size - signWidth sign counted).toNat
  let body := fieldBody tmp precision
  if left then sign.toList ++ body ++ List.replicate (pad counted) ' '
  else if zeropad then sign.toList ++ List.replicate (pad counted) '0' ++ body
  else List.replicate (pad true) ' ' ++ sign.toList ++ body

def FieldCounts (zeropad left : Bool) : Prop :=
  sign.isSome = true ∧ (left = true ∨ zeropad = true) ∧ 0 < size

instance (zeropad left : Bool) : Decidable (FieldCounts sign size zeropad left) :=
  inferInstanceAs (Decidable (_ ∧ _))

theorem length_fieldShown (zeropad left : Bool) :
    (fieldShown sign tmp precision size zeropad left false).length =
      (fieldShown sign tmp precision size zeropad left true).length +
        if FieldCounts sign size zeropad left then 1 else 0 := by
  unfold fieldShown FieldCounts signWidth
  cases sign with
  | none => simp
  | some sign =>
    by_cases hsize : 0 < size
    · cases left with
      | true =>
        simp [hsize]
        lia
      | false =>
        cases zeropad with
        | true =>
          simp [hsize]
          lia
        | false => simp
    · have hnone : size.toNat = 0 := Int.toNat_of_nonpos (not_lt.mp hsize)
      simp [hsize, hnone]

theorem fieldShown_of_not_counts
    {zeropad left : Bool} (hcounts : ¬FieldCounts sign size zeropad left) (counted : Bool) :
    fieldShown sign tmp precision size zeropad left counted =
      fieldShown sign tmp precision size zeropad left true := by
  unfold fieldShown signWidth
  cases sign with
  | none => simp
  | some sign =>
    by_cases hsize : 0 < size
    · cases left with
      | true => exact absurd ⟨rfl, .inl rfl, hsize⟩ hcounts
      | false =>
        cases zeropad with
        | true => exact absurd ⟨rfl, .inr rfl, hsize⟩ hcounts
        | false => rfl
    · have hnone : size.toNat = 0 := Int.toNat_of_nonpos (not_lt.mp hsize)
      cases counted with
      | true => rfl
      | false => simp [hnone]

theorem printField_left (zeropad : Bool) : printField k o sign tmp precision size zeropad true =
      k.puts o (fieldShown sign tmp precision size zeropad true (k.fits o)) := by
  unfold printField fieldShown fieldBody signWidth
  cases sign with
  | none => simp [countDown, fill_eq]
  | some sign =>
    by_cases hfits : k.fits o = true
    · simp [countDown, fill_eq, hfits]
    · simp [countDown, fill_eq, hfits]

theorem printField_zeropad : printField k o sign tmp precision size true false =
      k.puts o (fieldShown sign tmp precision size true false (k.fits o)) := by
  unfold printField fieldShown fieldBody signWidth
  cases sign with
  | none => simp [countDown, fill_eq]
  | some sign =>
    by_cases hfits : k.fits o = true
    · simp [countDown, fill_eq, hfits]
    · simp [countDown, fill_eq, hfits]

theorem printField_right (counted : Bool) : printField k o sign tmp precision size false false =
      k.puts o (fieldShown sign tmp precision size false false counted) := by
  unfold printField fieldShown fieldBody signWidth
  cases sign with
  | none => simp [countDown, fill_eq]
  | some sign =>
    by_cases hsize : 0 < size
    · by_cases hfits : k.fits (k.puts o (List.replicate (size.toNat - 1) ' ')) = true
      · simp [countDown, fill_eq, hsize, hfits]
      · simp [countDown, fill_eq, hsize, hfits]
    · have hnone : size.toNat = 0 := Int.toNat_of_nonpos (not_lt.mp hsize)
      by_cases hfits : k.fits o = true
      · simp [countDown, fill_eq, hsize, hnone, hfits]
      · simp [countDown, fill_eq, hsize, hnone, hfits]

end Fields

section Numbers

variable (num base s precision : ℤ) (type : Flags)

def digitChars (type : Flags) : List Char := if type.large then largeDigits else smallDigits

def numberSign (num : ℤ) (type : Flags) : Option Char := (getSign type num).1

def signedTmp : List Char := numberTmp (digitChars type) base (getSign type num).2

def fullPrecision : ℤ := max precision (signedTmp num base type).length

def numberShown (counted : Bool) : List Char :=
  let p := fullPrecision num base precision type
  fieldShown (numberSign num type) (signedTmp num base type) p (s - p) type.zeropad type.left
    counted

theorem printNumber_eq {σ : Type} (k : Sink σ) (o : σ) : printNumber k o num base s precision type =
      k.puts o (numberShown num base s precision type (k.fits o)) := by
  have hmax : ∀ i : ℤ, (if precision < i then i else precision) = max precision i := by
    intro i
    split_ifs
    all_goals omega
  have hsign : getSign { type with zeropad := false } num = getSign type num := rfl
  unfold printNumber numberShown
  cases hleft : type.left with
  | true =>
    simp only [if_true, hmax]
    rw [← hleft, hsign, hleft]
    exact printField_left k o _ _ _ _ _
  | false =>
    simp only [Bool.false_eq_true, if_false, hmax, hleft]
    cases type.zeropad with
    | true => exact printField_zeropad k o _ _ _ _
    | false => exact printField_right k o _ _ _ _ _

end Numbers

def blankField (text : List Char) (pad : ℕ) (left : Bool) : List Char :=
  if left then text ++ List.replicate pad ' ' else List.replicate pad ' ' ++ text

namespace Directive

def shown (counted : Bool) : Directive → List Char
  | .literal text => text
  | .char c fieldWidth flags => blankField [c] (fieldWidth - 1).toNat flags.left
  | .string s fieldWidth precision flags =>
    let len := stringLength s precision
    blankField (s.take len.toNat) (fieldWidth - len).toNat flags.left
  | .number num base fieldWidth precision flags =>
    numberShown num base fieldWidth precision flags counted

def text (d : Directive) : List Char := d.shown true

def SignCounts : Directive → Prop
  | .literal _ => False
  | .char _ _ _ => False
  | .string _ _ _ _ => False
  | .number num base fieldWidth precision flags =>
    FieldCounts (numberSign num flags) (fieldWidth - fullPrecision num base precision flags)
      flags.zeropad flags.left

instance (d : Directive) : Decidable d.SignCounts :=
  match d with
  | .literal _ => isFalse id
  | .char _ _ _ => isFalse id
  | .string _ _ _ _ => isFalse id
  | .number num base fieldWidth precision flags => inferInstanceAs (Decidable
      (FieldCounts (numberSign num flags) (fieldWidth - fullPrecision num base precision flags)
        flags.zeropad flags.left))

theorem length_shown (d : Directive) :
    (d.shown false).length = d.text.length + if d.SignCounts then 1 else 0 := by
  cases d with
  | literal chars | char c fieldWidth flags | string s fieldWidth precision flags => rfl
  | number num base fieldWidth precision flags => exact length_fieldShown _ _ _ _ _ _

theorem shown_of_not_signCounts {d : Directive} (hcounts : ¬d.SignCounts) (counted : Bool) :
    d.shown counted = d.text := by
  cases d with
  | literal chars | char c fieldWidth flags | string s fieldWidth precision flags => rfl
  | number num base fieldWidth precision flags =>
    exact fieldShown_of_not_counts _ _ _ _ hcounts counted

end Directive

theorem printDirective_eq {σ : Type} (k : Sink σ) (o : σ) (d : Directive) :
    printDirective k o d = k.puts o (d.shown (k.fits o)) := by
  cases d with
  | literal text => rfl
  | char c fieldWidth flags =>
    simp only [printDirective, Directive.shown, blankField, preCountDown, fill_eq]
    cases flags.left with
    | true => simp
    | false =>
      have hnone : (min (fieldWidth - 1) 0 - 1).toNat = 0 := by lia
      simp [hnone]
  | string s fieldWidth precision flags =>
    simp only [printDirective, Directive.shown, blankField, countDown, fill_eq]
    cases flags.left with
    | true => simp
    | false =>
      have hnone : (min fieldWidth (stringLength s precision) - 1 -
          stringLength s precision).toNat = 0 := by lia
      simp [hnone]
  | number num base fieldWidth precision flags =>
    exact printNumber_eq num base fieldWidth precision flags k o

def fullText (ds : List Directive) : List Char := ds.flatMap Directive.text

def putText (fits : ℕ → Bool) (pos : ℕ) : List Directive → List Char
  | [] => []
  | d :: ds =>
    let shown := d.shown (fits pos)
    shown ++ putText fits (pos + shown.length) ds

def signPlaces (pos : ℕ) : List Directive → List ℕ
  | [] => []
  | d :: ds =>
    let places := signPlaces (pos + d.text.length) ds
    if d.SignCounts then pos :: places else places

section Formats

variable {fits : ℕ → Bool} {pos : ℕ} {d : Directive} {ds : List Directive}

theorem fullText_cons : fullText (d :: ds) = d.text ++ fullText ds := flatMap_cons

theorem foldl_printDirective {σ : Type} {k : Sink σ} {o : σ} (fits : ℕ → Bool) (pos : ℕ)
    (hfits : ∀ text, k.fits (k.puts o text) = fits (pos + text.length)) :
    ds.foldl (printDirective k) o = k.puts o (putText fits pos ds) := by
  induction ds generalizing o pos with
  | nil => rfl
  | cons d ds ih =>
    have hhead : k.fits o = fits pos := hfits []
    rw [foldl_cons, printDirective_eq, hhead, putText, puts_append]
    apply ih
    intro text
    have hlater := hfits (d.shown (fits pos) ++ text)
    rw [puts_append, length_append, ← add_assoc] at hlater
    exact hlater

theorem putText_eq (hroom : ∀ p ∈ signPlaces pos ds, fits p = true) :
    putText fits pos ds = fullText ds := by
  induction ds generalizing pos with
  | nil => rfl
  | cons d ds ih =>
    have hshown : d.shown (fits pos) = d.text := by
      by_cases hcounts : d.SignCounts
      · rw [signPlaces, if_pos hcounts] at hroom
        rw [hroom pos mem_cons_self]
        rfl
      · exact Directive.shown_of_not_signCounts hcounts _
    have hrest : ∀ p ∈ signPlaces (pos + d.text.length) ds, fits p = true := by
      intro p hp
      apply hroom p
      rw [signPlaces]
      split_ifs
      · exact mem_cons_of_mem pos hp
      · exact hp
    rw [putText, fullText_cons, hshown, ih hrest]

theorem length_shown_le (d : Directive) (counted : Bool) :
    d.text.length ≤ (d.shown counted).length ∧ (d.shown counted).length ≤ d.text.length + 1 := by
  cases counted with
  | true => exact ⟨le_rfl, Nat.le_succ _⟩
  | false =>
    rw [d.length_shown]
    split_ifs
    · exact ⟨Nat.le_succ _, le_rfl⟩
    · exact ⟨le_rfl, Nat.le_succ _⟩

theorem foldl_textSink (ds : List Directive) :
    ds.foldl (printDirective textSink) [] = fullText ds := by
  rw [foldl_printDirective (fun _ => true) 0 fun _ => rfl, putText_eq fun _ _ => rfl, textSink_puts]
  exact nil_append _

theorem putText_getElem? {i : ℕ} (hroom : ∀ p ≤ pos + i, fits p = true) :
    (putText fits pos ds)[i]? = (fullText ds)[i]? := by
  induction ds generalizing pos i with
  | nil => rfl
  | cons d ds ih =>
    have hshown : d.shown (fits pos) = d.text := by
      rw [hroom pos (Nat.le_add_right pos i)]
      rfl
    rw [putText, fullText_cons, hshown]
    rcases Nat.lt_or_ge i d.text.length with hhead | hrest
    · rw [getElem?_append_left hhead, getElem?_append_left hhead]
    · rw [getElem?_append_right hrest, getElem?_append_right hrest]
      apply ih
      intro p hp
      exact hroom p (by omega)

theorem length_putText (fits : ℕ → Bool) (pos : ℕ) (ds : List Directive) :
    (fullText ds).length ≤ (putText fits pos ds).length ∧
      (putText fits pos ds).length ≤ (fullText ds).length + ds.length := by
  induction ds generalizing pos with
  | nil => exact ⟨le_rfl, le_rfl⟩
  | cons d ds ih =>
    have hhead := length_shown_le d (fits pos)
    have hrest := ih (pos + (d.shown (fits pos)).length)
    rw [putText, fullText_cons]
    simp only [length_append, length_cons]
    omega

theorem length_putText_lt {p : ℕ} (hp : p ∈ signPlaces pos ds) (hroom : fits p = false) :
    (fullText ds).length < (putText fits pos ds).length := by
  induction ds generalizing pos with
  | nil => cases hp
  | cons d ds ih =>
    have hrest := length_putText fits (pos + (d.shown (fits pos)).length) ds
    rw [putText, fullText_cons]
    simp only [length_append]
    rw [signPlaces] at hp
    by_cases hcounts : d.SignCounts
    · cases hfits : fits pos with
      | false =>
        have hlonger := d.length_shown
        rw [if_pos hcounts] at hlonger
        rw [hfits] at hrest
        omega
      | true =>
        rw [if_pos hcounts] at hp
        rcases mem_cons.mp hp with hfirst | hlater
        · rw [hfirst, hfits] at hroom
          cases hroom
        · have hlt := ih hlater
          simp only [Directive.text] at hlt ⊢
          omega
    · rw [if_neg hcounts] at hp
      rw [Directive.shown_of_not_signCounts hcounts]
      have hlt := ih hp
      omega

end Formats

theorem length_directives (strings : UInt32 → CString) (fmt : List Char) (args : VaList) :
    (directives strings fmt args).length ≤ fmt.length := by
  induction fmt, args using directives.induct strings with
  | case1 args =>
    rw [directives]
    exact le_rfl
  | case2 args c fmt next ih =>
    rw [directives, length_cons, length_cons]
    exact Nat.succ_le_succ (ih.trans (nextDirective_length strings c fmt args))

end RtThread.Printf
