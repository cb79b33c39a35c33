import Mathlib.Data.List.Chain
import Mathlib.Data.List.Nodup
import Mathlib.Tactic

/-!
# Linked lists

A ring is a list of distinct nodes in which every node points to its
successor, every successor points back, and the last node points to the first.
The pointers are two functions on an arbitrary node type, so a ring can live in
a table of nodes or in raw memory.  Insertion and removal are stated pointwise:
they only speak about the pointers of the nodes of the ring, which is all that
a memory with other contents can promise.  The last section is about singly
linked lists which end in a null pointer.
-/

namespace RtThread

open Function List

variable {α : Type*} {next prev next' prev' : α → α} {head p n : α}
  {xs ys before after : List α}

def Link (next prev : α → α) (x y : α) : Prop :=
  next x = y ∧ prev y = x

structure IsRing (next prev : α → α) (head : α) (xs : List α) : Prop where
  links : (head :: xs ++ [head]).IsChain (Link next prev)
  nodup : (head :: xs).Nodup

theorem isChain_of_neighbours {R S : α → α → Prop} {l : List α} (hchain : l.IsChain R)
    (himp : ∀ x y, x ∈ l.dropLast → y ∈ l.tail → R x y → S x y) :
    l.IsChain S := by
  induction l with
  | nil => exact .nil
  | cons a l ih =>
    cases l with
    | nil => exact .singleton a
    | cons b l =>
      obtain ⟨hab, htail⟩ := isChain_cons_cons.mp hchain
      refine isChain_cons_cons.mpr ⟨himp a b (by simp) (by simp) hab, ih htail ?_⟩
      intro x y hx hy hxy
      apply himp x y _ _ hxy
      · simp only [dropLast_cons_cons, mem_cons]
        exact .inr hx
      · exact mem_cons_of_mem _ hy

theorem isChain_and {R S : α → α → Prop} {l : List α} (hR : l.IsChain R) (hS : l.IsChain S) :
    l.IsChain fun x y => R x y ∧ S x y := by
  induction l with
  | nil => exact .nil
  | cons a l ih =>
    cases l with
    | nil => exact .singleton a
    | cons b l =>
      rcases isChain_cons_cons.mp hR with ⟨hRab, hRtail⟩
      rcases isChain_cons_cons.mp hS with ⟨hSab, hStail⟩
      exact isChain_cons_cons.mpr ⟨⟨hRab, hSab⟩, ih hRtail hStail⟩

theorem exists_cons_of_append_head (after : List α) (head : α) :
    ∃ q rest, after ++ [head] = q :: rest ∧ (q :: rest).dropLast = after := by
  cases after with
  | nil => exact ⟨head, [], rfl, rfl⟩
  | cons q rest =>
    refine ⟨q, rest ++ [head], rfl, ?_⟩
    rw [← cons_append, dropLast_concat]

namespace IsRing

section

variable (hring : IsRing next prev head xs)
include hring

theorem split_links (hxs : head :: xs = before ++ p :: after) :
    (before ++ [p]).IsChain (Link next prev) ∧
      ((p :: after) ++ [head]).IsChain (Link next prev) := by
  have hlinks := hring.links
  rw [hxs] at hlinks
  rw [append_assoc, cons_append] at hlinks
  exact isChain_split.mp hlinks

theorem prev_next (hp : p ∈ head :: xs) : prev (next p) = p := by
  obtain ⟨before, after, hxs⟩ := append_of_mem hp
  obtain ⟨q, rest, hq, -⟩ := exists_cons_of_append_head after head
  have hright := (hring.split_links hxs).2
  rw [cons_append, hq] at hright
  obtain ⟨hnext, hprev⟩ := (isChain_cons_cons.mp hright).1
  rw [hnext, hprev]

theorem next_mem (hp : p ∈ head :: xs) : next p ∈ head :: xs := by
  obtain ⟨before, after, hxs⟩ := append_of_mem hp
  have hright := (hring.split_links hxs).2
  cases after with
  | nil =>
    have hlink := (isChain_cons_cons.mp hright).1
    rw [hlink.1]
    exact mem_cons_self
  | cons q rest =>
    have hlink := (isChain_cons_cons.mp hright).1
    rw [hlink.1, hxs]
    simp

theorem ne_next_of_link (hp : p ∈ head :: xs) {x y : α}
    (hlink : Link next prev x y) (hne : x ≠ p) : y ≠ next p := by
  intro heq
  apply hne
  rw [← hlink.2, heq, hring.prev_next hp]

theorem congr (hnext : ∀ x ∈ head :: xs, next' x = next x)
    (hprev : ∀ x ∈ head :: xs, prev' x = prev x) : IsRing next' prev' head xs := by
  refine ⟨?_, hring.nodup⟩
  apply isChain_of_neighbours hring.links
  intro x y hx hy hlink
  have hxmem : x ∈ head :: xs := by
    rwa [dropLast_concat] at hx
  have hymem : y ∈ head :: xs := by
    simp only [cons_append, tail_cons, mem_append, mem_singleton] at hy
    simp only [mem_cons]
    tauto
  exact ⟨(hnext x hxmem).trans hlink.1, (hprev y hymem).trans hlink.2⟩

theorem chain_frame (hp : p ∈ head :: xs)
    {l : List α} (hl : l.IsChain (Link next prev)) (hnotin : p ∉ l.dropLast)
    (hsub : ∀ x ∈ l, x ∈ head :: xs) (hnext : ∀ x ∈ head :: xs, x ≠ p → next' x = next x)
    (hprev : ∀ x ∈ head :: xs, x ≠ next p → prev' x = prev x) : l.IsChain (Link next' prev') := by
  apply isChain_of_neighbours hl
  intro x y hx hy hlink
  have hxp : x ≠ p := fun heq => hnotin (heq ▸ hx)
  have hxmem := hsub x (dropLast_subset l hx)
  have hymem := hsub y (mem_of_mem_tail hy)
  exact ⟨(hnext x hxmem hxp).trans hlink.1,
    (hprev y hymem (hring.ne_next_of_link hp hlink hxp)).trans hlink.2⟩

theorem insert (hxs : head :: xs = before ++ p :: after)
    (hys : head :: ys = before ++ p :: n :: after) (hfresh : n ∉ head :: xs)
    (hpn : next' p = n) (hnp : prev' n = p) (hnq : next' n = next p) (hqn : prev' (next p) = n)
    (hnext : ∀ x ∈ head :: xs, x ≠ p → next' x = next x)
    (hprev : ∀ x ∈ head :: xs, x ≠ next p → prev' x = prev x) : IsRing next' prev' head ys := by
  have hp : p ∈ head :: xs := by rw [hxs]; simp
  have hnodup : (before ++ p :: after).Nodup := hxs ▸ hring.nodup
  have hparts := nodup_append.mp hnodup
  have hpbefore : p ∉ before := fun hmem =>
    hparts.2.2 p hmem p mem_cons_self rfl
  have hpafter : p ∉ after := (nodup_cons.mp hparts.2.1).1
  obtain ⟨hleft, hright⟩ := hring.split_links hxs
  obtain ⟨q, rest, hq, hdrop⟩ := exists_cons_of_append_head after head
  rw [cons_append, hq] at hright
  obtain ⟨hpq, hrest⟩ := isChain_cons_cons.mp hright
  have hleft' : (before ++ [p]).IsChain (Link next' prev') := by
    apply hring.chain_frame hp hleft _ _ hnext hprev
    · simpa using hpbefore
    · intro x hx
      rw [hxs]
      simp only [mem_append, mem_cons] at hx ⊢
      tauto
  have hrest' : (q :: rest).IsChain (Link next' prev') := by
    apply hring.chain_frame hp hrest _ _ hnext hprev
    · rw [hdrop]
      exact hpafter
    · intro x hx
      rw [← hq] at hx
      simp only [mem_append, mem_singleton] at hx
      rcases hx with hx | rfl
      · rw [hxs]
        simp [hx]
      · exact mem_cons_self
  refine ⟨?_, ?_⟩
  · rw [hys, append_assoc, cons_append, cons_append, hq]
    refine isChain_append_cons_cons.mpr ⟨hleft', ⟨hpn, hnp⟩, ?_⟩
    refine isChain_cons_cons.mpr ⟨⟨hnq.trans hpq.1, ?_⟩, hrest'⟩
    rw [← hpq.1, hqn]
  · have hperm : (before ++ p :: n :: after).Perm (n :: (before ++ p :: after)) := by
      rw [show before ++ p :: n :: after = (before ++ [p]) ++ n :: after by simp,
        show before ++ p :: after = (before ++ [p]) ++ after by simp]
      exact perm_middle
    rw [hys, hperm.nodup_iff, nodup_cons, ← hxs]
    exact ⟨hfresh, hring.nodup⟩

theorem remove (hxs : head :: xs = before ++ p :: n :: after)
    (hys : head :: ys = before ++ p :: after) (hpq : next' p = next n) (hqp : prev' (next n) = p)
    (hnext : ∀ x ∈ head :: ys, x ≠ p → next' x = next x)
    (hprev : ∀ x ∈ head :: ys, x ≠ next n → prev' x = prev x) : IsRing next' prev' head ys := by
  have hmem : n ∈ head :: xs := by rw [hxs]; simp
  have hnodup : (before ++ p :: n :: after).Nodup := hxs ▸ hring.nodup
  have hparts := nodup_append.mp hnodup
  have hpbefore : p ∉ before := fun hin =>
    hparts.2.2 p hin p mem_cons_self rfl
  have hnbefore : n ∉ before := fun hin =>
    hparts.2.2 n hin n (by simp) rfl
  have hpafter : p ∉ n :: after := (nodup_cons.mp hparts.2.1).1
  have hnafter : n ∉ after := (nodup_cons.mp (nodup_cons.mp hparts.2.1).2).1
  have hsplit : head :: xs = (before ++ [p]) ++ n :: after := by
    rw [hxs]
    simp
  obtain ⟨hleft, -⟩ := hring.split_links hxs
  obtain ⟨-, hright⟩ := hring.split_links hsplit
  obtain ⟨q, rest, hq, hdrop⟩ := exists_cons_of_append_head after head
  rw [cons_append, hq] at hright
  obtain ⟨hnq, hrest⟩ := isChain_cons_cons.mp hright
  have hleft' : (before ++ [p]).IsChain (Link next' prev') := by
    apply isChain_of_neighbours hleft
    intro x y hx hy hlink
    rw [dropLast_concat] at hx
    have hxin : x ∈ head :: ys := by
      rw [hys]
      simp [hx]
    have hyin : y ∈ head :: ys := by
      have hy' := mem_of_mem_tail hy
      rw [hys]
      simp only [mem_append, mem_cons] at hy' ⊢
      tauto
    have hxp : x ≠ p := fun heq => hpbefore (heq ▸ hx)
    have hxn : x ≠ n := fun heq => hnbefore (heq ▸ hx)
    exact ⟨(hnext x hxin hxp).trans hlink.1,
      (hprev y hyin (hring.ne_next_of_link hmem hlink hxn)).trans hlink.2⟩
  have hrest' : (q :: rest).IsChain (Link next' prev') := by
    apply isChain_of_neighbours hrest
    intro x y hx hy hlink
    rw [hdrop] at hx
    have hxin : x ∈ head :: ys := by
      rw [hys]
      simp [hx]
    have hyin : y ∈ head :: ys := by
      have hy' := mem_of_mem_tail hy
      rw [← hq] at hy'
      simp only [mem_append, mem_singleton] at hy'
      rcases hy' with hy' | rfl
      · rw [hys]
        simp [hy']
      · exact mem_cons_self
    have hxp : x ≠ p := fun heq => hpafter (heq ▸ mem_cons_of_mem _ hx)
    have hxn : x ≠ n := fun heq => hnafter (heq ▸ hx)
    exact ⟨(hnext x hxin hxp).trans hlink.1,
      (hprev y hyin (hring.ne_next_of_link hmem hlink hxn)).trans hlink.2⟩
  refine ⟨?_, ?_⟩
  · rw [hys, append_assoc, cons_append, hq]
    refine isChain_append_cons_cons.mpr ⟨hleft', ⟨hpq.trans hnq.1, ?_⟩, hrest'⟩
    rw [← hnq.1, hqp]
  · have hperm : (before ++ p :: n :: after).Perm (n :: (before ++ p :: after)) := by
      rw [show before ++ p :: n :: after = (before ++ [p]) ++ n :: after by simp,
        show before ++ p :: after = (before ++ [p]) ++ after by simp]
      exact perm_middle
    rw [hperm.nodup_iff, nodup_cons] at hnodup
    rw [hys]
    exact hnodup.2

theorem exists_pred (hn : n ∈ xs) :
    ∃ before after, head :: xs = before ++ prev n :: n :: after ∧ next (prev n) = n := by
  rcases append_of_mem hn with ⟨left, after, hxs⟩
  rcases eq_nil_or_concat (head :: left) with hnil | ⟨before, p, hconcat⟩
  · simp at hnil
  · have hsplit : head :: xs = before ++ p :: n :: after := by
      rw [hxs, ← cons_append, hconcat, concat_eq_append]
      simp
    have hlinks := hring.links
    rw [hsplit, append_assoc, cons_append, cons_append] at hlinks
    have hpn := (isChain_append_cons_cons.mp hlinks).2.1
    refine ⟨before, after, ?_, ?_⟩
    · rw [hpn.2, hsplit]
    · rw [hpn.2, hpn.1]

theorem prev_mem (hp : p ∈ head :: xs) : prev p ∈ head :: xs := by
  rcases mem_cons.mp hp with rfl | hp
  · have hlinks := hring.links
    rcases eq_nil_or_concat (p :: xs) with hnil | ⟨before, q, hconcat⟩
    · simp at hnil
    · rw [hconcat, concat_eq_append, append_assoc, singleton_append] at hlinks
      have hqp := (isChain_append_cons_cons.mp hlinks).2.1
      rw [hqp.2, hconcat, concat_eq_append]
      simp
  · rcases hring.exists_pred hp with ⟨before, after, hsplit, -⟩
    rw [hsplit]
    simp

theorem erase [DecidableEq α] (hn : n ∈ xs)
    (hpq : next' (prev n) = next n) (hqp : prev' (next n) = prev n)
    (hnext : ∀ x ∈ head :: xs, x ≠ n → x ≠ prev n → next' x = next x)
    (hprev : ∀ x ∈ head :: xs, x ≠ n → x ≠ next n → prev' x = prev x) :
    IsRing next' prev' head (xs.erase n) := by
  have hnodup := nodup_cons.mp hring.nodup
  have hhead : n ≠ head := fun heq => hnodup.1 (heq ▸ hn)
  rcases hring.exists_pred hn with ⟨before, after, hsplit, -⟩
  have herase : head :: xs.erase n = before ++ prev n :: after := by
    have hall : (head :: xs).erase n = head :: xs.erase n := by
      rw [erase_cons_tail (by simpa using hhead.symm)]
    have hfull := hring.nodup
    rw [hsplit, nodup_append, nodup_cons] at hfull
    rw [← hall, hsplit, erase_append_right _ _, erase_cons_tail _, erase_cons_head]
    · have hne : prev n ≠ n := by
        intro heq
        apply hfull.2.1.1
        rw [heq]
        exact mem_cons_self
      simpa using hne
    · intro hbefore
      exact hfull.2.2 n hbefore n (by simp) rfl
  have hsub : ∀ x ∈ head :: xs.erase n, x ∈ head :: xs ∧ x ≠ n := by
    intro x hx
    rcases mem_cons.mp hx with rfl | hx
    · exact ⟨mem_cons_self, hhead.symm⟩
    · have hx' := (hnodup.2.mem_erase_iff).mp hx
      exact ⟨mem_cons_of_mem _ hx'.2, hx'.1⟩
  apply hring.remove hsplit herase hpq hqp
  · intro x hx hne
    exact hnext x (hsub x hx).1 (hsub x hx).2 hne
  · intro x hx hne
    exact hprev x (hsub x hx).1 (hsub x hx).2 hne

theorem push (hfresh : n ∉ head :: xs) (hhn : next' head = n)
    (hnh : prev' n = head) (hnq : next' n = next head) (hqn : prev' (next head) = n)
    (hnext : ∀ x ∈ head :: xs, x ≠ head → next' x = next x)
    (hprev : ∀ x ∈ head :: xs, x ≠ next head → prev' x = prev x) :
    IsRing next' prev' head (n :: xs) :=
  hring.insert (nil_append _).symm (nil_append _).symm hfresh hhn hnh hnq hqn hnext hprev

end

end IsRing

def LinkedTo (next : α → α) (null : α) : α → List α → Prop
  | p, [] => p = null
  | p, x :: xs => p = x ∧ x ≠ null ∧ LinkedTo next null (next x) xs

namespace LinkedTo

variable {null : α}

section

variable (hlinked : LinkedTo next null p xs)
include hlinked

theorem congr (hnext : ∀ x ∈ xs, next' x = next x) :
    LinkedTo next' null p xs := by
  induction xs generalizing p with
  | nil => exact hlinked
  | cons x xs ih =>
    rcases hlinked with ⟨hp, hnull, htail⟩
    refine ⟨hp, hnull, ?_⟩
    rw [hnext x mem_cons_self]
    exact ih htail (fun y hy => hnext y (mem_cons_of_mem _ hy))

theorem write [DecidableEq α] (hn : n ∉ xs) (value : α) :
    LinkedTo (update next n value) null p xs := by
  apply hlinked.congr
  intro x hx
  have hne : x ≠ n := fun heq => hn (heq ▸ hx)
  exact update_of_ne hne _ _

theorem push [DecidableEq α] (hnull : n ≠ null) (hn : n ∉ xs) :
    LinkedTo (update next n p) null n (n :: xs) := by
  refine ⟨rfl, hnull, ?_⟩
  rw [update_self]
  exact hlinked.write hn p

end

theorem append [DecidableEq α] {last : α} (hlinked : LinkedTo next null p (xs ++ [last]))
    (hnodup : (xs ++ [last] ++ [n]).Nodup) (hnull : n ≠ null) (hnext : next n = null) :
    LinkedTo (update next last n) null p (xs ++ [last] ++ [n]) := by
  induction xs generalizing p with
  | nil =>
    obtain ⟨hp, hlast, -⟩ := hlinked
    have hne : n ≠ last := by
      intro heq
      simp [heq] at hnodup
    refine ⟨hp, hlast, ?_⟩
    rw [update_self]
    refine ⟨rfl, hnull, ?_⟩
    rw [update_of_ne hne]
    exact hnext
  | cons x xs ih =>
    obtain ⟨hp, hx, htail⟩ := hlinked
    have hne : x ≠ last := by
      intro heq
      simp [heq] at hnodup
    refine ⟨hp, hx, ?_⟩
    rw [update_of_ne hne]
    exact ih htail (nodup_cons.mp hnodup).2

theorem ne_null (hlinked : LinkedTo next null p xs) {x : α} (hx : x ∈ xs) : x ≠ null := by
  induction xs generalizing p with
  | nil => cases hx
  | cons y xs ih =>
    obtain ⟨-, hnull, htail⟩ := hlinked
    obtain rfl | hx := mem_cons.mp hx
    · exact hnull
    · exact ih htail hx

theorem behind {x : α} (hlinked : LinkedTo next null p (before ++ x :: after)) :
    LinkedTo next null (next x) after := by
  induction before generalizing p with
  | nil => exact hlinked.2.2
  | cons y before ih => exact ih hlinked.2.2

theorem of_isChain (hchain : (xs ++ [null]).IsChain fun x y => next x = y)
    (hnull : null ∉ xs) (hhead : (xs ++ [null]).head? = some p) :
    LinkedTo next null p xs := by
  induction xs generalizing p with
  | nil => exact (Option.some.inj hhead).symm
  | cons x xs ih =>
    rw [mem_cons, not_or] at hnull
    refine ⟨(Option.some.inj hhead).symm, fun heq => hnull.1 heq.symm, ?_⟩
    rw [cons_append] at hchain
    apply ih hchain.tail hnull.2
    cases xs with
    | nil | cons y xs => rw [(isChain_cons_cons.mp hchain).1]; rfl

theorem unique (hlinked : LinkedTo next null p xs) (hlinked' : LinkedTo next null p ys) :
    xs = ys := by
  induction xs generalizing p ys with
  | nil =>
    cases ys with
    | nil => rfl
    | cons y ys => exact absurd (hlinked'.1.symm.trans hlinked) hlinked'.2.1
  | cons x xs ih =>
    cases ys with
    | nil => exact absurd (hlinked.1.symm.trans hlinked') hlinked.2.1
    | cons y ys =>
      have hxy : x = y := hlinked.1.symm.trans hlinked'.1
      rw [hxy, ih hlinked.2.2 (hxy ▸ hlinked'.2.2)]

theorem replaceAfter {x v : α} {after' : List α}
    (hlinked : LinkedTo next null p (before ++ x :: after))
    (hx : next' x = v) (hafter : LinkedTo next' null v after')
    (hbefore : ∀ y ∈ before, next' y = next y) : LinkedTo next' null p (before ++ x :: after') := by
  induction before generalizing p with
  | nil =>
    refine ⟨hlinked.1, hlinked.2.1, ?_⟩
    rw [hx]
    exact hafter
  | cons y before ih =>
    obtain ⟨hp, hynull, htail⟩ := hlinked
    refine ⟨hp, hynull, ?_⟩
    rw [hbefore y mem_cons_self]
    exact ih htail fun z hz => hbefore z (mem_cons_of_mem _ hz)

theorem eq_nil_iff (hlinked : LinkedTo next null p xs) : p = null ↔ xs = [] := by
  cases xs with
  | nil => exact ⟨fun _ => rfl, fun _ => hlinked⟩
  | cons x xs =>
    rcases hlinked with ⟨rfl, hnull, -⟩
    simp [hnull]

end LinkedTo
end RtThread
