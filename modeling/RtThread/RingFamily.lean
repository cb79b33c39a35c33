import RtThread.LinkedRing

/-!
# Families of rings

Rings that share no node, with a node put behind a head or taken out of its
ring.  What the pointers of the other rings are stays as it is.
-/

namespace RtThread

open Function List

variable {α H : Type*}

structure Links (α : Type*) where
  next : α → α
  prev : α → α

/-- Every ring of the family holds its list, and no node is in two of them. -/
structure Rings (s : Links α) (head : H → α) (lists : H → List α) : Prop where
  ring : ∀ h, IsRing s.next s.prev (head h) (lists h)
  apart : ∀ h h' x, x ∈ head h :: lists h → x ∈ head h' :: lists h' → h = h'

/-- The first node with `test` on the way from `x` to `stop`, in less than `n` steps. -/
def search [DecidableEq α] (next : α → α) (stop : α) (test : α → Bool) : ℕ → α → Option (Option α)
  | 0, _ => none
  | n + 1, x =>
    if x = stop then some none
    else if test x then some (some x)
    else search next stop test n (next x)

variable [DecidableEq α] {s : Links α} {head : H → α} {lists : H → List α} {n x : α} {h : H}

namespace Links

def insertAfter (s : Links α) (l n : α) : Links α where
  next := update (update s.next n (s.next l)) l n
  prev := update (update s.prev (s.next l) n) n l

def remove (s : Links α) (n : α) : Links α where
  next := update (update s.next (s.prev n) (s.next n)) n n
  prev := update (update s.prev (s.next n) (s.prev n)) n n

end Links

theorem search_chain {next prev : α → α} {stop p : α} {xs : List α} (test : α → Bool) (k : ℕ)
    (hk : xs.length < k) (hchain : (p :: xs ++ [stop]).IsChain (Link next prev))
    (hstop : stop ∉ xs) : search next stop test k (next p) = some (xs.find? test) := by
  induction xs generalizing p k with
  | nil =>
    obtain ⟨k, rfl⟩ : ∃ m, k = m + 1 := ⟨k - 1, by lia⟩
    have hlink := (isChain_cons_cons.mp hchain).1
    exact if_pos hlink.1
  | cons x xs ih =>
    obtain ⟨k, rfl⟩ : ∃ m, k = m + 1 := ⟨k - 1, by lia⟩
    obtain ⟨hlink, hrest⟩ := isChain_cons_cons.mp hchain
    have hne : x ≠ stop := by
      rintro rfl
      exact hstop mem_cons_self
    rw [hlink.1, search, if_neg hne]
    by_cases htest : test x = true
    · rw [if_pos htest, find?_cons_of_pos htest]
    · rw [if_neg htest, find?_cons_of_neg htest]
      exact ih k (by simpa using hk) hrest fun hmem => hstop (mem_cons_of_mem x hmem)

namespace Rings

theorem search_eq (hrings : Rings s head lists) (test : α → Bool) (k : ℕ)
    (hk : (lists h).length < k) :
    search s.next (head h) test k (s.next (head h)) = some ((lists h).find? test) :=
  search_chain test k hk (hrings.ring h).links (nodup_cons.mp (hrings.ring h).nodup).1

omit [DecidableEq α] in
theorem empty (hhead : Function.Injective head) : Rings (⟨id, id⟩ : Links α) head fun _ => [] where
  ring h := ⟨isChain_cons_cons.mpr ⟨⟨rfl, rfl⟩, isChain_singleton _⟩,
    nodup_singleton _⟩
  apart h h' x hx hx' := by
    rw [mem_singleton] at hx hx'
    exact hhead (hx.symm.trans hx')

theorem insertAfter [DecidableEq H] (hrings : Rings s head lists) (h : H)
    (hn : ∀ h, n ∉ head h :: lists h) :
    Rings (s.insertAfter (head h) n) head (update lists h (n :: lists h)) where
  ring h' := by
    have hfresh : ∀ h', ∀ x ∈ head h' :: lists h', x ≠ n := by
      rintro h' x hx rfl
      exact hn h' hx
    have hmem : s.next (head h) ∈ head h :: lists h := (hrings.ring h).next_mem mem_cons_self
    by_cases hsame : h' = h
    · subst hsame
      rw [update_self]
      refine (hrings.ring h').push (hn h') (update_self ..) (update_self ..) ?_ ?_
        (fun x hx hxh => ?_) fun x hx hxn => ?_
      · exact (update_of_ne (hfresh h' _ mem_cons_self).symm ..).trans
          (update_self ..)
      · exact (update_of_ne (hfresh h' _ hmem) ..).trans (update_self ..)
      · exact (update_of_ne hxh ..).trans (update_of_ne (hfresh h' x hx) ..)
      · exact (update_of_ne (hfresh h' x hx) ..).trans (update_of_ne hxn ..)
    · rw [update_of_ne hsame]
      have hout : ∀ x ∈ head h :: lists h, ∀ y ∈ head h' :: lists h', y ≠ x := by
        rintro x hx y hy rfl
        exact hsame (hrings.apart h' h y hy hx)
      refine (hrings.ring h').congr (fun x hx => ?_) fun x hx => ?_
      · exact (update_of_ne (hout _ mem_cons_self x hx) ..).trans
          (update_of_ne (hfresh h' x hx) ..)
      · exact (update_of_ne (hfresh h' x hx) ..).trans
          (update_of_ne (hout _ hmem x hx) ..)
  apart h₁ h₂ x hx hx' := by
    have hmem : ∀ h', x ∈ head h' :: update lists h (n :: lists h) h' →
        x ∈ head h' :: lists h' ∨ x = n ∧ h' = h := by
      intro h' hx
      by_cases hsame : h' = h
      · subst hsame
        rw [update_self] at hx
        grind
      · rw [update_of_ne hsame] at hx
        exact .inl hx
    rcases hmem h₁ hx with hold | ⟨rfl, rfl⟩
    · rcases hmem h₂ hx' with hold' | ⟨rfl, -⟩
      · exact hrings.apart h₁ h₂ x hold hold'
      · exact absurd hold (hn h₁)
    · rcases hmem h₂ hx' with hold' | ⟨-, rfl⟩
      · exact absurd hold' (hn h₂)
      · rfl

theorem remove (hrings : Rings s head lists) (hn : n ∈ lists h) :
    Rings (s.remove n) head fun h => (lists h).filter (· ≠ n) where
  ring h' := by
    have hring := hrings.ring h
    have hmem : n ∈ head h :: lists h := mem_cons_of_mem _ hn
    by_cases hsame : h' = h
    · subst hsame
      obtain ⟨before, after, hsplit, -⟩ := hring.exists_pred hn
      have hnodup := hring.nodup
      rw [hsplit] at hnodup
      have hprev : s.prev n ≠ n := by
        intro heq
        rw [heq] at hnodup
        simp [nodup_append] at hnodup
      have hnext : s.next n ≠ n := by
        intro heq
        have hback := hring.prev_next hmem
        rw [heq] at hback
        exact hprev hback
      have herase : (lists h').filter (· ≠ n) = (lists h').erase n := by
        rw [(nodup_cons.mp hring.nodup).2.erase_eq_filter]
        exact filter_congr fun x _ => by grind
      rw [herase]
      refine hring.erase hn ?_ ?_ (fun x _ hxn hxp => ?_) fun x _ hxn hxq => ?_
      · exact (update_of_ne hprev ..).trans (update_self ..)
      · exact (update_of_ne hnext ..).trans (update_self ..)
      · exact (update_of_ne hxn ..).trans (update_of_ne hxp ..)
      · exact (update_of_ne hxn ..).trans (update_of_ne hxq ..)
    · have hout : ∀ x ∈ head h :: lists h, ∀ y ∈ head h' :: lists h', y ≠ x := by
        rintro x hx y hy rfl
        exact hsame (hrings.apart h' h y hy hx)
      have hfilter : (lists h').filter (· ≠ n) = lists h' := by
        rw [filter_eq_self]
        intro x hx
        simpa using hout n hmem x (mem_cons_of_mem _ hx)
      rw [hfilter]
      refine (hrings.ring h').congr (fun x hx => ?_) fun x hx => ?_
      · exact (update_of_ne (hout n hmem x hx) ..).trans
          (update_of_ne (hout _ (hring.prev_mem hmem) x hx) ..)
      · exact (update_of_ne (hout n hmem x hx) ..).trans
          (update_of_ne (hout _ (hring.next_mem hmem) x hx) ..)
  apart h₁ h₂ x hx hx' :=
    hrings.apart h₁ h₂ x (cons_subset_cons _ (filter_subset_self _) hx)
      (cons_subset_cons _ (filter_subset_self _) hx')

end Rings

end RtThread
