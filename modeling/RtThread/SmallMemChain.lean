import RtThread.SmallMemModel
import RtThread.LinkedRing

/-!
# The block chain of the small-memory heap

This module describes the headers of the heap as a list of offsets ending in
`heap_end` and proves what the primitive writes do to it.  `Blocks` is the part
of the heap invariant that every intermediate state of the allocator keeps;
`combine` and the splitting of a block are the two edits of the chain.
-/

namespace RtThread.SmallMem

open List Word Memory

variable {a : AlignSize} {h : Heap}

theorem twelve_le_sizeofStructMem (a : AlignSize) : 12 ≤ sizeofStructMem a :=
  le_rtAlign a (by have := a.bytes_le; omega)

theorem dvd_sizeofStructMem (a : AlignSize) : a.bytes ∣ sizeofStructMem a :=
  dvd_rtAlign a

theorem bytes_le_sizeofStructMem (a : AlignSize) : a.bytes ≤ sizeofStructMem a :=
  Nat.le_of_dvd (by have := twelve_le_sizeofStructMem a; omega) (dvd_sizeofStructMem a)

theorem minSizeAligned_eq (a : AlignSize) : minSizeAligned a = sizeofStructMem a :=
  rfl

namespace Heap

theorem header_congr {h' : Heap} {x : ℕ} (hagree : Memory.AgreeOn h.memory h'.memory x 12) :
    h'.header x = h.header x := by
  have hfield : ∀ shift width, shift + width ≤ 12 →
      h'.memory.load (x + shift) width = h.memory.load (x + shift) width := by
    intro shift width hbound
    apply load_congr
    intro y hlow hhigh
    exact hagree y (by omega) (by omega)
  have hmagic := hfield 0 2 (by omega)
  rw [Nat.add_zero] at hmagic
  simp only [header, hmagic, hfield 2 2 (by omega), hfield 4 4 (by omega), hfield 8 4 (by omega)]

section Setters

variable (h : Heap) {x y value : ℕ}

@[simp] theorem header_setMagic (hvalue : value < 65536) :
    (h.setMagic x value).header x = { h.header x with magic := value } := by
  have hmod : value % 256 ^ 2 = value := Nat.mod_eq_of_lt hvalue
  simp only [header, setMagic, load_store_same, hmod]
  rw [load_store_of_apart _ (by omega), load_store_of_apart _ (by omega),
    load_store_of_apart _ (by omega)]

@[simp] theorem header_setUsed (hvalue : value < 65536) :
    (h.setUsed x value).header x = { h.header x with used := value } := by
  have hmod : value % 256 ^ 2 = value := Nat.mod_eq_of_lt hvalue
  simp only [header, setUsed, load_store_same, hmod]
  rw [load_store_of_apart _ (by omega), load_store_of_apart _ (by omega),
    load_store_of_apart _ (by omega)]

@[simp] theorem header_setNext (hvalue : value < 4294967296) :
    (h.setNext x value).header x = { h.header x with next := value } := by
  have hmod : value % 256 ^ 4 = value := Nat.mod_eq_of_lt hvalue
  simp only [header, setNext, load_store_same, hmod]
  rw [load_store_of_apart _ (by omega), load_store_of_apart _ (by omega),
    load_store_of_apart _ (by omega)]

@[simp] theorem header_setPrev (hvalue : value < 4294967296) :
    (h.setPrev x value).header x = { h.header x with prev := value } := by
  have hmod : value % 256 ^ 4 = value := Nat.mod_eq_of_lt hvalue
  simp only [header, setPrev, load_store_same, hmod]
  rw [load_store_of_apart _ (by omega), load_store_of_apart _ (by omega),
    load_store_of_apart _ (by omega)]

variable (hapart : x + 12 ≤ y ∨ y + 12 ≤ x)

include hapart

@[simp] theorem header_setMagic_of_apart : (h.setMagic x value).header y = h.header y :=
  header_congr (store_agreeOn _ (by omega))

@[simp] theorem header_setUsed_of_apart : (h.setUsed x value).header y = h.header y :=
  header_congr (store_agreeOn _ (by omega))

@[simp] theorem header_setNext_of_apart : (h.setNext x value).header y = h.header y :=
  header_congr (store_agreeOn _ (by omega))

@[simp] theorem header_setPrev_of_apart : (h.setPrev x value).header y = h.header y :=
  header_congr (store_agreeOn _ (by omega))

end Setters

end Heap

/-- Block `y` follows block `x`: their headers do not overlap, and `y` points
back unless it is the end `e` of the heap. -/
structure Adjacent (s e : ℕ) (view : ℕ → HeapMem) (x y : ℕ) : Prop where
  next_eq : (view x).next = y
  gap : x + s ≤ y
  prev_eq : y ≠ e → (view y).prev = x

section Chain

variable {s e x y z : ℕ} {view view' : ℕ → HeapMem} {before after : List ℕ}

theorem pairwise_of_chain {l : List ℕ} (hchain : l.IsChain (Adjacent s e view)) :
    l.Pairwise fun x y => x + s ≤ y := by
  have htrans : Trans (fun x y : ℕ => x + s ≤ y) (fun x y : ℕ => x + s ≤ y)
      (fun x y : ℕ => x + s ≤ y) := ⟨fun hxy hyz => by omega⟩
  exact isChain_iff_pairwise.mp (hchain.imp fun _ _ hxy => hxy.gap)

theorem chain_frame {l : List ℕ} (hchain : l.IsChain (Adjacent s e view))
    (hnext : ∀ x ∈ l.dropLast, (view' x).next = (view x).next)
    (hprev : ∀ x ∈ l.tail, (view' x).prev = (view x).prev) : l.IsChain (Adjacent s e view') := by
  apply isChain_of_neighbours hchain
  intro x y hx hy hxy
  exact ⟨(hnext x hx).trans hxy.next_eq, hxy.gap, fun hne => (hprev y hy).trans (hxy.prev_eq hne)⟩

/-- The parts of a chain on both sides of a place where the links are changed. -/
theorem chain_sides (hnodup : (before ++ x :: z :: after).Nodup)
    (hleft : (before ++ [x]).IsChain (Adjacent s e view))
    (hright : (z :: after).IsChain (Adjacent s e view))
    (hframe : ∀ b ∈ before ++ x :: z :: after, (b ≠ x → (view' b).next = (view b).next) ∧
      (b ≠ z → (view' b).prev = (view b).prev)) :
    (before ++ [x]).IsChain (Adjacent s e view') ∧
      (z :: after).IsChain (Adjacent s e view') := by
  simp only [nodup_append, nodup_cons, mem_cons, not_or] at hnodup
  rcases hnodup with ⟨-, ⟨⟨hxz, hxafter⟩, hzafter, -⟩, hbefore⟩
  constructor
  · apply chain_frame hleft
    · intro b hb
      rw [dropLast_concat] at hb
      exact (hframe b (by simp [hb])).1 (hbefore b hb x (.inl rfl))
    · intro b hb
      rcases mem_append.mp (mem_of_mem_tail hb) with hb | hb
      · exact (hframe b (by simp [hb])).2 (hbefore b hb z (.inr (.inl rfl)))
      · rw [mem_singleton.mp hb]
        exact (hframe x (by simp)).2 hxz
  · apply chain_frame hright
    · intro b hb
      have hmem := dropLast_subset _ hb
      exact (hframe b (by simp [mem_cons.mp hmem])).1 (by grind)
    · intro b hb
      exact (hframe b (by simp [show b ∈ after from hb])).2 (ne_of_mem_of_not_mem hb hzafter)

theorem nodup_of_chain {l : List ℕ} (hs : 0 < s) (hchain : l.IsChain (Adjacent s e view)) :
    l.Nodup :=
  (pairwise_of_chain hchain).imp fun hxy => by omega

theorem chain_split (hs : 0 < s) (hchain : (before ++ x :: z :: after).IsChain (Adjacent s e view))
    (hxy : Adjacent s e view' x y) (hyz : Adjacent s e view' y z)
    (hframe : ∀ b ∈ before ++ x :: z :: after, (b ≠ x → (view' b).next = (view b).next) ∧
      (b ≠ z → (view' b).prev = (view b).prev)) :
    (before ++ x :: y :: z :: after).IsChain (Adjacent s e view') := by
  rcases isChain_append_cons_cons.mp hchain with ⟨hleft, -, hright⟩
  rcases chain_sides (nodup_of_chain hs hchain) hleft hright hframe with ⟨hleft', hright'⟩
  exact isChain_append_cons_cons.mpr ⟨hleft', hxy, isChain_cons_cons.mpr ⟨hyz, hright'⟩⟩

theorem chain_merge (hs : 0 < s)
    (hchain : (before ++ x :: y :: z :: after).IsChain (Adjacent s e view))
    (hxz : Adjacent s e view' x z)
    (hframe : ∀ b ∈ before ++ x :: z :: after, (b ≠ x → (view' b).next = (view b).next) ∧
      (b ≠ z → (view' b).prev = (view b).prev)) :
    (before ++ x :: z :: after).IsChain (Adjacent s e view') := by
  rcases isChain_append_cons_cons.mp hchain with ⟨hleft, -, hrest⟩
  have hshort : (before ++ x :: z :: after).Sublist (before ++ x :: y :: z :: after) :=
    ((sublist_cons_self y _).cons_cons x).append_left before
  rcases chain_sides ((nodup_of_chain hs hchain).sublist hshort) hleft
    (isChain_cons_cons.mp hrest).2 hframe with ⟨hleft', hright'⟩
  exact isChain_append_cons_cons.mpr ⟨hleft', hxz, hright'⟩

end Chain
end RtThread.SmallMem
