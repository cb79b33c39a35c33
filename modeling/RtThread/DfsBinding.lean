import RtThread.DfsDescriptors

/-!
# Open descriptors stay bound

Any number of threads make calls, whose steps interleave in any order.  The
slot of a descriptor is cleared outside the lock by `dfs_file_close` and by a
failing `dfs_file_open`, while their callers still have to call `fd_put`; when
another thread takes the slot in between, those calls release its reference.
-/

namespace RtThread.Dfs

open Function List Option Call Outcome Nat

/-- A call of some thread with the steps it still has to make, or a descriptor that was returned
and is not closed.  Before `fd_new` the call has no descriptor. -/
inductive Holder
  | run (fd : ℕ) (rest : List Action)
  | opened (fd : ℕ) (c : Contents)

structure Sys where
  table : Table
  holders : List Holder

inductive Event
  /-- A thread starts a call that is given no descriptor. -/
  | start (call : Call)
  /-- A thread starts a call on the open descriptor at `i`. -/
  | use (i : ℕ) (call : Call)
  /-- The call at `i` makes its next step. -/
  | act (i : ℕ)

def Action.next (fd : ℕ) (rest : List Action) : Action → Holder
  | .ret c => .opened fd c
  | _ => .run fd rest

def Holder.act (cfg : Config) (t : Table) : Holder → Option (Holder × Table)
  | .run fd (a :: rest) =>
    match a.exec cfg fd t with
    | .next fd t => some (a.next fd rest, t)
    | .leave => some (.run fd [], t)
    | .fault => some (.run fd [], t)
  | _ => none

def Sys.step (cfg : Config) (s : Sys) : Event → Option Sys
  | .start call =>
    if call.fd = none then some { s with holders := s.holders ++ [.run 0 call.script] } else none
  | .use i call =>
    match s.holders[i]? with
    | some (.opened fd _) =>
      if call.fd = some fd then
        if call.closes then some { s with holders := s.holders.set i (.run fd call.script) }
        else some { s with holders := s.holders ++ [.run fd call.script] }
      else none
    | _ => none
  | .act i =>
    match s.holders[i]? with
    | some h =>
      (h.act cfg s.table).map fun next =>
        { table := next.2, holders := s.holders.set i next.1 }
    | none => none

def Sys.run (cfg : Config) (events : List Event) (s : Sys) : Option Sys :=
  events.foldlM (Sys.step cfg) s

def Sys.init : Sys where
  table := fun _ => .cleared
  holders := []

/-! ## What the descriptors are bound to -/

def DfsFd.binding (d : DfsFd) : Option ℕ × Option Path × ℕ := (d.fs, d.path, d.data)

def Contents.binding (c : Contents) : Option ℕ × Option Path × ℕ := (some c.fs, c.path, c.data)

def Holder.opened? : Holder → Option (ℕ × Contents)
  | .run _ _ => none
  | .opened fd c => some (fd, c)

def Sys.opened (s : Sys) : List (ℕ × Contents) := s.holders.filterMap Holder.opened?

/-- Every open descriptor still has the file it was opened for. -/
structure Sys.Bound (s : Sys) : Prop where
  nodup : (s.opened.map Prod.fst).Nodup
  bound : ∀ p ∈ s.opened, (s.table p.1).binding = p.2.binding

def owed : List Action → ℕ
  | [] => 0
  | .new :: _ => 0
  | .get :: rest => owed rest - 1
  | .getNew :: rest => owed rest - 1
  | .put :: rest => owed rest + 1
  | _ :: rest => owed rest

def Holder.fd : Holder → ℕ
  | .run fd _ => fd
  | .opened fd _ => fd

def Holder.rest : Holder → List Action
  | .run _ rest => rest
  | .opened _ c => [.ret c]

def Holder.AtNew (h : Holder) : Prop := h.rest.head? = some .new

instance (h : Holder) : Decidable h.AtNew := inferInstanceAs (Decidable (_ = _))

/-- When the step is an `fd_new`, no call still owes an `fd_put` to the slot that it takes. -/
def Sys.Clean (cfg : Config) (s : Sys) : Event → Prop
  | .act i =>
    ∀ h ∈ s.holders[i]?, h.AtNew → ∀ next ∈ fdNew cfg s.table,
      ∀ o ∈ s.holders, o.fd = next.1 → owed o.rest = 0
  | _ => True

instance (cfg : Config) (s : Sys) : (event : Event) → Decidable (s.Clean cfg event)
  | .start _ => isTrue trivial
  | .use _ _ => isTrue trivial
  | .act _ =>
    inferInstanceAs (Decidable (∀ h ∈ _, _))

def Sys.RunClean (cfg : Config) : Sys → List Event → Prop
  | _, [] => True
  | s, event :: events =>
    s.Clean cfg event ∧ ∀ s' ∈ s.step cfg event, Sys.RunClean cfg s' events

instance decidableRunClean (cfg : Config) :
    ∀ (events : List Event) (s : Sys), Decidable (s.RunClean cfg events)
  | [], _ => isTrue trivial
  | _ :: events, _ =>
    have : ∀ s', Decidable (Sys.RunClean cfg s' events) := decidableRunClean cfg events
    inferInstanceAs (Decidable (_ ∧ _))

/-! ## References -/

def Action.owns : Action → Bool
  | .setFs _ => true
  | .setPath _ => true
  | .setData _ _ _ => true
  | .clear => true
  | .ret _ => true
  | _ => false

def owns : List Action → Bool
  | [] => false
  | .new :: _ => false
  | a :: rest => a.owns || owns rest

def need : List Action → ℕ
  | [] => 0
  | a :: rest =>
    match a with
    | .new => 0
    | .get => max (owns rest).toNat (need rest - 1)
    | .getNew => max (owns rest).toNat (need rest - 1)
    | .put => need rest + 1
    | .callFs => need rest
    | .seek _ _ => need rest
    | .clear => 1
    | .ret _ => need rest + 1
    | _ => max 1 (need rest)

def Fills : List Action → Option ℕ × Option Path × ℕ → Prop
  | [], _ => True
  | a :: rest, b =>
    match a with
    | .new => True
    | .setFs fs => Fills rest (some fs, b.2)
    | .setPath path => Fills rest (b.1, path, b.2.2)
    | .setData data _ _ => Fills rest (b.1, b.2.1, data)
    | .ret c => b = c.binding
    | _ => Fills rest b

def Shaped : List Action → Prop
  | [] => True
  | a :: rest =>
    match a with
    | .new => need rest ≤ 1 ∧ (∀ b, Fills rest b) ∧ Shaped rest
    | .clear => owns rest = false ∧ Shaped rest
    | .ret _ => rest = []
    | _ => Shaped rest

theorem owns_cons {a : Action} {rest : List Action} (hne : a ≠ .new) :
    owns (a :: rest) = (a.owns || owns rest) := by
  cases a <;> first | exact absurd rfl hne | rfl

theorem fills_of_not_owns {rest : List Action} {b : Option ℕ × Option Path × ℕ}
    (hrest : owns rest = false) : Fills rest b := by
  induction rest with
  | nil => exact trivial
  | cons a rest ih =>
    by_cases hnew : a = .new
    · rw [hnew]
      exact trivial
    · rw [owns_cons hnew, Bool.or_eq_false_iff] at hrest
      have hfills : Fills rest b := ih hrest.2
      cases a with
      | new => exact trivial
      | get | getNew | put | callFs | seek size pos => exact hfills
      | setFs fs | setPath path | setData data size pos | clear | ret c => cases hrest.1

theorem owns_le_need (rest : List Action) : (owns rest).toNat ≤ need rest := by
  induction rest with
  | nil => exact le_refl 0
  | cons a rest ih =>
    cases a with
    | new => exact le_refl 0
    | get | getNew => exact le_max_left _ _
    | put => exact ih.trans (le_succ _)
    | callFs | seek size pos => exact ih
    | setFs fs | setPath path | setData data size pos => exact le_max_left _ _
    | clear => exact le_refl 1
    | ret c => exact le_add_left _ _

theorem need_eq_owed {rest : List Action} (hrest : owns rest = false) : need rest = owed rest := by
  induction rest with
  | nil => rfl
  | cons a rest ih =>
    by_cases hnew : a = .new
    · rw [hnew]
      rfl
    · rw [owns_cons hnew, Bool.or_eq_false_iff] at hrest
      have howed : need rest = owed rest := ih hrest.2
      have hget : max (owns rest).toNat (need rest - 1) = owed rest - 1 := by
        rw [hrest.2, howed]
        exact zero_max _
      cases a with
      | new => rfl
      | get | getNew => exact hget
      | put => exact congrArg (· + 1) howed
      | callFs | seek size pos => exact howed
      | setFs fs | setPath path | setData data size pos | clear | ret c => cases hrest.1

/-! ## One slot -/

def DfsFd.Live (d : DfsFd) (refs : ℕ) : Prop :=
  d.magic = DFS_FD_MAGIC ∧ 1 ≤ d.refCount ∧ (refs : ℤ) ≤ d.refCount

def DfsFd.Dead (d : DfsFd) : Prop := d.magic ≠ DFS_FD_MAGIC ∧ d.refCount ≤ 0

/-- A slot is live with at least its references, or dead without an owner. -/
structure SlotOk (d : DfsFd) (refs owners : ℕ) : Prop where
  single : owners ≤ 1
  live_or_dead : d.Live refs ∨ d.Dead ∧ owners = 0

theorem SlotOk.mono {d : DfsFd} {refs owners refs' owners' : ℕ} (h : SlotOk d refs owners)
    (hrefs : refs' ≤ refs) (howners : owners' ≤ owners) : SlotOk d refs' owners' where
  single := howners.trans h.single
  live_or_dead := by
    obtain ⟨hmagic, hpos, hle⟩ | ⟨hdead, hzero⟩ := h.live_or_dead
    · left
      exact ⟨hmagic, hpos, by omega⟩
    · right
      exact ⟨hdead, by omega⟩

theorem SlotOk.live {d : DfsFd} {refs owners : ℕ} (h : SlotOk d refs owners)
    (howners : 0 < owners) : d.Live refs := by
  obtain hlive | ⟨-, hzero⟩ := h.live_or_dead
  · exact hlive
  · omega

theorem dead_cleared : DfsFd.cleared.Dead := by
  have hmagic : (0 : ℕ) ≠ DFS_FD_MAGIC := by decide
  exact ⟨hmagic, le_refl _⟩

section Slot

variable {d : DfsFd} {refs owners n o : ℕ}

theorem SlotOk.get (h : SlotOk d (refs + max o (n - 1)) (owners + o))
    (hmagic : d.magic = DFS_FD_MAGIC) :
    SlotOk { d with refCount := d.refCount + 1 } (refs + n) (owners + o) where
  single := h.single
  live_or_dead := by
    obtain ⟨-, hpos, hle⟩ | ⟨hdead, -⟩ := h.live_or_dead
    · left
      exact ⟨hmagic, by dsimp only; lia, by dsimp only; lia⟩
    · exact absurd hmagic hdead.1

theorem SlotOk.put (h : SlotOk d (refs + (n + 1)) (owners + o)) (hrefs : owners ≤ refs)
    (hn : o ≤ n) :
    SlotOk d.put (refs + n) (owners + o) ∧ (d.put.binding = d.binding ∨ owners + o = 0) := by
  unfold DfsFd.put
  obtain ⟨hmagic, hpos, hle⟩ | ⟨⟨hmagic, hcount⟩, hzero⟩ := h.live_or_dead
  · by_cases hlast : d.refCount - 1 = 0
    · have hzero : owners + o = 0 := by lia
      rw [if_pos hlast, hzero]
      exact ⟨⟨zero_le 1, .inr ⟨dead_cleared, rfl⟩⟩, .inr rfl⟩
    · rw [if_neg hlast]
      have hlive : DfsFd.Live { d with refCount := d.refCount - 1 } (refs + n) :=
        ⟨hmagic, by dsimp only; lia, by dsimp only; lia⟩
      exact ⟨⟨h.single, .inl hlive⟩, .inl rfl⟩
  · have hlast : d.refCount - 1 ≠ 0 := by lia
    rw [if_neg hlast]
    have hdead : DfsFd.Dead { d with refCount := d.refCount - 1 } := ⟨hmagic, by dsimp only; lia⟩
    exact ⟨⟨h.single, .inr ⟨hdead, hzero⟩⟩, .inl rfl⟩

theorem SlotOk.write (h : SlotOk d (refs + max 1 n) (owners + 1)) (d' : DfsFd) (ho : o ≤ 1)
    (hmagic : d'.magic = d.magic) (hcount : d'.refCount = d.refCount) :
    SlotOk d' (refs + n) (owners + o) ∧ owners = 0 := by
  obtain ⟨hlive, hpos, hle⟩ := h.live (succ_pos owners)
  have hsingle := h.single
  have hlive' : d'.Live (refs + n) := ⟨hmagic.trans hlive, by lia, by lia⟩
  exact ⟨⟨by lia, .inl hlive'⟩, by lia⟩

theorem SlotOk.clear (h : SlotOk d (refs + 1) (owners + 1)) :
    SlotOk .cleared (refs + n) (owners + 0) ∧ owners = 0 := by
  have hsingle := h.single
  have hzero : owners = 0 := by omega
  rw [hzero]
  exact ⟨⟨Nat.zero_le 1, .inr ⟨dead_cleared, rfl⟩⟩, rfl⟩

end Slot

structure SlotStep (t t' : Table) (fd fd' : ℕ) (refs owners : ℕ) (rest : List Action)
    (d : DfsFd) : Prop where
  same : fd' = fd
  table : t' = update t fd d
  slot : SlotOk d (refs + need rest) (owners + (owns rest).toNat)
  frame : d.binding = (t fd).binding ∨ owners = 0
  fills : Fills rest d.binding
  shaped : Shaped rest

section Exec

variable {cfg : Config} {t t' : Table} {fd fd' refs owners : ℕ} {a : Action} {rest : List Action}

theorem exec_get {d : DfsFd} (hok : SlotOk d (refs + max (owns rest).toNat (need rest - 1))
    (owners + (owns rest).toNat)) (hd : t fd = d) (hget : fdGet cfg fd t = some t')
    (hfills : Fills rest d.binding) (hshaped : Shaped rest) :
    SlotStep t t' fd fd refs owners rest { d with refCount := d.refCount + 1 } := by
  unfold fdGet at hget
  split at hget
  · next hlive =>
      rw [hd] at hlive
      exact
        { same := rfl
          table := by rw [← some.inj hget, hd]
          slot := hok.get hlive.2
          frame := .inl (by rw [hd]; rfl)
          fills := hfills
          shaped := hshaped }
  · cases hget

theorem exec_slot (hnew : a ≠ .new) (hret : ∀ c, a ≠ .ret c)
    (hok : SlotOk (t fd) (refs + need (a :: rest)) (owners + (owns (a :: rest)).toNat))
    (hrefs : owners ≤ refs) (hshaped : Shaped (a :: rest))
    (hfills : Fills (a :: rest) (t fd).binding) (hexec : a.exec cfg fd t = .next fd' t') :
    ∃ d, SlotStep t t' fd fd' refs owners rest d := by
  have hone : (owns rest).toNat ≤ 1 := Bool.toNat_le _
  cases a with
  | new => contradiction
  | ret c => exact absurd rfl (hret c)
  | get | getNew =>
    simp only [Action.exec] at hexec
    split at hexec
    · next hget =>
        obtain ⟨rfl, rfl⟩ := next.inj hexec
        exact ⟨_, exec_get hok rfl hget hfills hshaped⟩
    · cases hexec
  | put =>
    obtain ⟨rfl, rfl⟩ := next.inj hexec
    obtain ⟨hslot, hframe⟩ := hok.put hrefs (owns_le_need rest)
    refine ⟨_, rfl, rfl, hslot, ?_, ?_, hshaped⟩
    · exact hframe.imp_right fun hzero => (Nat.add_eq_zero_iff.mp hzero).1
    · obtain hsame | hzero := hframe
      · rw [hsame]
        exact hfills
      · apply fills_of_not_owns
        have howns : (owns rest).toNat = 0 := (Nat.add_eq_zero_iff.mp hzero).2
        exact Bool.toNat_eq_zero.mp howns
  | callFs =>
    simp only [Action.exec] at hexec
    split at hexec
    · cases hexec
    · obtain ⟨rfl, rfl⟩ := next.inj hexec
      exact ⟨_, rfl, (update_eq_self _ _).symm, hok, .inl rfl, hfills, hshaped⟩
  | seek size pos =>
    obtain ⟨rfl, rfl⟩ := next.inj hexec
    exact ⟨_, rfl, rfl, ⟨hok.single, hok.live_or_dead⟩, .inl rfl, hfills, hshaped⟩
  | setFs fs =>
    obtain ⟨rfl, rfl⟩ := next.inj hexec
    obtain ⟨hslot, hzero⟩ := hok.write { t fd with fs := some fs, size := 0, pos := 0 } hone rfl rfl
    exact ⟨_, rfl, rfl, hslot, .inr hzero, hfills, hshaped⟩
  | setPath path =>
    obtain ⟨rfl, rfl⟩ := next.inj hexec
    obtain ⟨hslot, hzero⟩ := hok.write { t fd with path := path } hone rfl rfl
    exact ⟨_, rfl, rfl, hslot, .inr hzero, hfills, hshaped⟩
  | setData data size pos =>
    obtain ⟨rfl, rfl⟩ := next.inj hexec
    obtain ⟨hslot, hzero⟩ := hok.write
      { t fd with data := data, size := size, pos := pos } hone rfl rfl
    exact ⟨_, rfl, rfl, hslot, .inr hzero, hfills, hshaped⟩
  | clear =>
    obtain ⟨rfl, rfl⟩ := next.inj hexec
    obtain ⟨hslot, hzero⟩ := hok.clear
    obtain ⟨howns, hshaped⟩ := hshaped
    refine ⟨_, rfl, rfl, ?_, .inr hzero, fills_of_not_owns howns, hshaped⟩
    rw [howns]
    exact hslot

end Exec

/-! ## All slots -/

def Holder.need (x : ℕ) (h : Holder) : ℕ := if h.fd = x then Dfs.need h.rest else 0

def Holder.owner (x : ℕ) (h : Holder) : ℕ := if h.fd = x then (Dfs.owns h.rest).toNat else 0

def refs (x : ℕ) (holders : List Holder) : ℕ := (holders.map (Holder.need x)).sum

def owners (x : ℕ) (holders : List Holder) : ℕ := (holders.map (Holder.owner x)).sum

/-- Every slot carries its holders, and what they will still write fits it. -/
structure Inv (s : Sys) : Prop where
  slots : ∀ x, SlotOk (s.table x) (refs x s.holders) (owners x s.holders)
  shaped : ∀ h ∈ s.holders, Shaped h.rest
  fills : ∀ h ∈ s.holders, Fills h.rest (s.table h.fd).binding

section Holders

variable {cfg : Config} {s : Sys} {t : Table} {l r : List Holder} {h h' : Holder} {x : ℕ}

theorem refs_insert (x : ℕ) (l r : List Holder) (h : Holder) :
    refs x (l ++ h :: r) = refs x (l ++ r) + h.need x := by
  simp only [refs, map_append, map_cons, List.sum_append, sum_cons]
  ring

theorem owners_insert (x : ℕ) (l r : List Holder) (h : Holder) :
    owners x (l ++ h :: r) = owners x (l ++ r) + h.owner x := by
  simp only [owners, map_append, map_cons, List.sum_append, sum_cons]
  ring

theorem owners_le_refs (x : ℕ) (holders : List Holder) : owners x holders ≤ refs x holders := by
  apply sum_le_sum
  intro h _
  unfold Holder.owner Holder.need
  split
  · exact owns_le_need h.rest
  · exact le_refl 0

theorem not_owns_of_owners {holders : List Holder} (hzero : owners h.fd holders = 0)
    (hmem : h ∈ holders) : owns h.rest = false := by
  have howner : h.owner h.fd = 0 := sum_eq_zero_iff.mp hzero _ (mem_map_of_mem hmem)
  rw [Holder.owner, if_pos rfl] at howner
  exact Bool.toNat_eq_zero.mp howner

theorem mem_insert {o : Holder} : o ∈ l ++ h :: r ↔ o = h ∨ o ∈ l ++ r :=
  perm_middle.mem_iff.trans mem_cons

theorem Inv.replace {d : DfsFd} (hinv : Inv ⟨t, l ++ h :: r⟩)
    (hother : ∀ y ≠ x, h'.need y ≤ h.need y ∧ h'.owner y ≤ h.owner y)
    (hslot : SlotOk d (refs x (l ++ r) + h'.need x) (owners x (l ++ r) + h'.owner x))
    (hframe : d.binding = (t x).binding ∨ owners x (l ++ r) = 0) (hshaped : Shaped h'.rest)
    (hfills : Fills h'.rest (update t x d h'.fd).binding) :
    Inv ⟨update t x d, l ++ h' :: r⟩ where
  slots := by
    intro y
    have hold := hinv.slots y
    dsimp only at hold ⊢
    rw [refs_insert, owners_insert] at hold ⊢
    by_cases hy : y = x
    · rw [hy, update_self]
      exact hslot
    · obtain ⟨hneed, howner⟩ := hother y hy
      rw [update_of_ne hy]
      exact hold.mono (Nat.add_le_add_left hneed _) (Nat.add_le_add_left howner _)
  shaped := by
    intro o hmem
    obtain rfl | hmem := mem_insert.mp hmem
    · exact hshaped
    · exact hinv.shaped o (mem_insert.mpr (.inr hmem))
  fills := by
    intro o hmem
    obtain rfl | hmem := mem_insert.mp hmem
    · exact hfills
    · have hold : Fills o.rest (t o.fd).binding := hinv.fills o (mem_insert.mpr (.inr hmem))
      dsimp only
      by_cases ho : o.fd = x
      · rw [ho, update_self]
        obtain hsame | hzero := hframe
        · rw [hsame, ← ho]
          exact hold
        · rw [← ho] at hzero
          exact fills_of_not_owns (not_owns_of_owners hzero hmem)
      · rw [update_of_ne ho]
        exact hold

theorem Inv.relax (hinv : Inv ⟨t, l ++ h :: r⟩) (hneed : ∀ y, h'.need y ≤ h.need y)
    (howner : ∀ y, h'.owner y ≤ h.owner y) (hshaped : Shaped h'.rest)
    (hfills : Fills h'.rest (t h'.fd).binding) : Inv ⟨t, l ++ h' :: r⟩ := by
  have hslot := hinv.slots h'.fd
  rw [refs_insert, owners_insert] at hslot
  have hsame : update t h'.fd (t h'.fd) = t := update_eq_self _ _
  have hnext : Inv ⟨update t h'.fd (t h'.fd), l ++ h' :: r⟩ := by
    apply hinv.replace (fun y _ => ⟨hneed y, howner y⟩) _ (.inl rfl) hshaped
    · rw [hsame]
      exact hfills
    · exact hslot.mono (Nat.add_le_add_left (hneed _) _) (Nat.add_le_add_left (howner _) _)
  rw [hsame] at hnext
  exact hnext

theorem Inv.join (hinv : Inv s) (hneed : need h.rest = 0) (howns : owns h.rest = false)
    (hshaped : Shaped h.rest) : Inv { s with holders := s.holders ++ [h] } where
  slots := by
    intro y
    have hslot := hinv.slots y
    have hzero : h.need y = 0 ∧ h.owner y = 0 := by
      unfold Holder.need Holder.owner
      rw [hneed, howns]
      exact ⟨ite_self 0, ite_self 0⟩
    rw [refs_insert, owners_insert, append_nil, hzero.1, hzero.2]
    exact hslot
  shaped := by
    intro o hmem
    obtain hmem | hmem := mem_append.mp hmem
    · exact hinv.shaped o hmem
    · rw [mem_singleton.mp hmem]
      exact hshaped
  fills := by
    intro o hmem
    obtain hmem | hmem := mem_append.mp hmem
    · exact hinv.fills o hmem
    · rw [mem_singleton.mp hmem]
      exact fills_of_not_owns howns

/-! ## The steps -/

theorem refs_eq_zero {holders : List Holder} (hzero : owners x holders = 0)
    (hclean : ∀ h ∈ holders, h.fd = x → owed h.rest = 0) : refs x holders = 0 := by
  apply sum_eq_zero
  intro n hn
  obtain ⟨h, hmem, rfl⟩ := mem_map.mp hn
  unfold Holder.need
  split
  · next hfd =>
      rw [← hfd] at hzero
      rw [need_eq_owed (not_owns_of_owners hzero hmem)]
      exact hclean h hmem hfd
  · rfl

theorem Inv.new {fd : ℕ} {rest : List Action} {next : ℕ × Table}
    (hinv : Inv ⟨t, l ++ .run fd (.new :: rest) :: r⟩) (hnew : fdNew cfg t = some next)
    (hclean : ∀ h ∈ l ++ .run fd (.new :: rest) :: r, h.fd = next.1 → owed h.rest = 0) :
    Inv ⟨next.2, l ++ .run next.1 rest :: r⟩ := by
  obtain ⟨hneed, hfills, hshaped⟩ := hinv.shaped _ (mem_insert.mpr (.inl rfl))
  obtain ⟨idx, hfind, rfl⟩ := map_eq_some_iff.mp hnew
  have hfree : (t idx).refCount ≤ 0 := by simpa using find?_some hfind
  have hslot := hinv.slots idx
  dsimp only at hslot
  have hdead : owners idx (l ++ .run fd (.new :: rest) :: r) = 0 := by
    obtain ⟨-, hpos, -⟩ | ⟨-, hzero⟩ := hslot.live_or_dead
    · omega
    · exact hzero
  have hrefs := refs_eq_zero hdead hclean
  rw [refs_insert, Nat.add_eq_zero_iff] at hrefs
  rw [owners_insert, Nat.add_eq_zero_iff] at hdead
  have hself : Holder.need idx (.run idx rest) = need rest := if_pos rfl
  have hself' : Holder.owner idx (.run idx rest) = (owns rest).toNat := if_pos rfl
  refine hinv.replace ?_ ?_ (.inr hdead.1) ?_ ?_
  · intro y hy
    have hzero : Holder.need y (.run idx rest) = 0 := if_neg (Ne.symm hy)
    have hzero' : Holder.owner y (.run idx rest) = 0 := if_neg (Ne.symm hy)
    rw [hzero, hzero']
    exact ⟨zero_le _, zero_le _⟩
  · rw [hrefs.1, hdead.1, hself, hself', zero_add, zero_add]
    have hlive : DfsFd.Live { t idx with refCount := 1, magic := DFS_FD_MAGIC } (need rest) :=
      ⟨rfl, le_refl _, by dsimp only; omega⟩
    exact ⟨Bool.toNat_le _, .inl hlive⟩
  · exact hshaped
  · exact hfills _

theorem Inv.stop (hinv : Inv ⟨t, l ++ h :: r⟩) (fd : ℕ) : Inv ⟨t, l ++ .run fd [] :: r⟩ := by
  have hneed : ∀ y, Holder.need y (.run fd []) = 0 := fun y => ite_self 0
  have howner : ∀ y, Holder.owner y (.run fd []) = 0 := fun y => ite_self 0
  apply hinv.relax
  · intro y
    rw [hneed]
    exact zero_le _
  · intro y
    rw [howner]
    exact zero_le _
  · exact trivial
  · exact trivial

theorem Inv.exec {fd fd' : ℕ} {a : Action} {rest : List Action} {t' : Table}
    (hinv : Inv ⟨t, l ++ .run fd (a :: rest) :: r⟩) (hnew : a ≠ .new) (hret : ∀ c, a ≠ .ret c)
    (hexec : a.exec cfg fd t = .next fd' t') : Inv ⟨t', l ++ .run fd' rest :: r⟩ := by
  have hshaped := hinv.shaped _ (mem_insert.mpr (.inl rfl))
  have hfills := hinv.fills _ (mem_insert.mpr (.inl rfl))
  have hself : ∀ rest, Holder.need fd (.run fd rest) = need rest := fun _ => if_pos rfl
  have hself' : ∀ rest, Holder.owner fd (.run fd rest) = (owns rest).toNat := fun _ => if_pos rfl
  have hslot := hinv.slots fd
  rw [refs_insert, owners_insert, hself, hself'] at hslot
  obtain ⟨d, rfl, rfl, hstep, hframe, hnext, hshape⟩ :=
    exec_slot hnew hret hslot (owners_le_refs _ _) hshaped hfills hexec
  refine hinv.replace ?_ ?_ hframe ?_ ?_
  · intro y hy
    have hzero : Holder.need y (.run fd' rest) = 0 := if_neg (Ne.symm hy)
    have hzero' : Holder.owner y (.run fd' rest) = 0 := if_neg (Ne.symm hy)
    rw [hzero, hzero']
    exact ⟨zero_le _, zero_le _⟩
  · rw [hself, hself']
    exact hstep
  · exact hshape
  · dsimp only [Holder.fd, Holder.rest]
    rw [update_self]
    exact hnext

theorem Inv.ret {fd : ℕ} {c : Contents} {rest : List Action}
    (hinv : Inv ⟨t, l ++ .run fd (.ret c :: rest) :: r⟩) : Inv ⟨t, l ++ .opened fd c :: r⟩ := by
  have hlast : rest = [] := hinv.shaped _ (mem_insert.mpr (.inl rfl))
  rw [hlast] at hinv
  have hfills : Fills [.ret c] (t fd).binding := hinv.fills _ (mem_insert.mpr (.inl rfl))
  exact hinv.relax (fun _ => le_refl _) (fun _ => le_refl _) rfl hfills

theorem Inv.act {next : Holder × Table} (hinv : Inv ⟨t, l ++ h :: r⟩)
    (hclean : ∀ fd rest, h = .run fd (.new :: rest) → ∀ next ∈ fdNew cfg t,
      ∀ o ∈ l ++ h :: r, o.fd = next.1 → owed o.rest = 0)
    (hact : h.act cfg t = some next) : Inv ⟨next.2, l ++ next.1 :: r⟩ := by
  cases h with
  | opened fd c => cases hact
  | run fd rest =>
    cases rest with
    | nil => cases hact
    | cons a rest =>
      simp only [Holder.act] at hact
      split at hact
      · next fd' t' hexec =>
          rw [← some.inj hact]
          by_cases hnew : a = .new
          · subst hnew
            simp only [Action.exec] at hexec
            split at hexec
            · next taken hfree =>
                obtain ⟨rfl, rfl⟩ := Outcome.next.inj hexec
                exact hinv.new hfree (hclean fd rest rfl taken hfree)
            · cases hexec
          · by_cases hret : ∃ c, a = .ret c
            · obtain ⟨c, rfl⟩ := hret
              obtain ⟨rfl, rfl⟩ := Outcome.next.inj hexec
              exact hinv.ret
            · have hret : ∀ c, a ≠ .ret c := fun c ha => hret ⟨c, ha⟩
              have hrun : a.next fd' rest = .run fd' rest := by
                cases a <;> first | exact absurd rfl (hret _) | rfl
              rw [hrun]
              exact hinv.exec hnew hret hexec
      · rw [← some.inj hact]
        exact hinv.stop fd
      · rw [← some.inj hact]
        exact hinv.stop fd

end Holders

/-! ## The calls and their runs -/

theorem dfsFileClose_cases (result : ℤ) :
    dfsFileClose result = [.callFs] ∨ dfsFileClose result = [.callFs, .clear] :=
  ite_eq_or_eq _ _ _

theorem Call.script_shaped (call : Call) : Shaped call.script := by
  cases call with
  | openFile opening =>
    cases opening with
    | noPath | noFilesystem => exact ⟨le_refl 1, fun _ => trivial, trivial⟩
    | noOperation fs path | failed fs path => exact ⟨le_refl 1, fun _ => trivial, rfl, trivial⟩
    | opened c size pos => exact ⟨le_refl 1, fun _ => rfl, rfl⟩
  | closeFile fd result =>
    by_cases hresult : result < 0
    · have hscript : (closeFile fd result).script = [.get, .callFs, .put] := by
        simp [script, dfsFileClose, hresult]
      rw [hscript]
      exact trivial
    · have hscript : (closeFile fd result).script = [.get, .callFs, .clear, .put, .put] := by
        simp [script, dfsFileClose, hresult]
      rw [hscript]
      exact ⟨rfl, trivial⟩
  | access fd size pos | fstat fd | lseekInvalid fd => exact trivial
  | mkdir opening result =>
    cases opening with
    | noPath | noFilesystem => exact ⟨zero_le 1, fun _ => trivial, trivial⟩
    | noOperation fs path | failed fs path => exact ⟨le_refl 1, fun _ => trivial, rfl, trivial⟩
    | opened c size pos =>
      obtain hclose | hclose := dfsFileClose_cases result
      · rw [script, Opening.contents]
        rw [hclose]
        exact ⟨le_refl 1, fun _ => trivial, trivial⟩
      · rw [script, Opening.contents]
        rw [hclose]
        exact ⟨le_refl 1, fun _ => trivial, rfl, trivial⟩
  | opendir opening memory result =>
    cases opening with
    | noPath | noFilesystem => exact ⟨le_refl 1, fun _ => trivial, trivial⟩
    | noOperation fs path | failed fs path => exact ⟨le_refl 1, fun _ => trivial, rfl, trivial⟩
    | opened c size pos =>
      cases memory with
      | true => exact ⟨le_refl 1, fun _ => rfl, rfl⟩
      | false =>
        obtain hclose | hclose := dfsFileClose_cases result
        · rw [script, Opening.contents]
          rw [hclose]
          exact ⟨le_refl 1, fun _ => trivial, trivial⟩
        · rw [script, Opening.contents]
          rw [hclose]
          exact ⟨le_refl 1, fun _ => trivial, rfl, trivial⟩
  | closedir fd result =>
    obtain hclose | hclose := dfsFileClose_cases result
    · rw [script, hclose]
      exact trivial
    · rw [script, hclose]
      exact ⟨rfl, trivial⟩

theorem Call.holds_nothing {call : Call} (hfd : call.fd = none) :
    need call.script = 0 ∧ owns call.script = false := by
  cases call with
  | openFile opening | mkdir opening result | opendir opening memory result => exact ⟨rfl, rfl⟩
  | closeFile fd result | access fd size pos | fstat fd | lseekInvalid fd | closedir fd result =>
    cases hfd

theorem Call.keeps {call : Call} {fd : ℕ} (hfd : call.fd = some fd) (hcloses : call.closes = false) :
    need call.script = 0 ∧ owns call.script = false := by
  cases call with
  | openFile opening | mkdir opening result | opendir opening memory result => cases hfd
  | closeFile fd result =>
    have hresult : result < 0 := by simpa [closes] using hcloses
    have hscript : (closeFile fd result).script = [.get, .callFs, .put] := by
      simp [script, dfsFileClose, hresult]
    rw [hscript]
    exact ⟨rfl, rfl⟩
  | access fd size pos | fstat fd | lseekInvalid fd => exact ⟨rfl, rfl⟩
  | closedir fd result => exact absurd hcloses.symm Bool.noConfusion

theorem Call.takes {call : Call} (hcloses : call.closes = true) :
    need call.script ≤ 1 ∧ ∀ b, Fills call.script b := by
  cases call with
  | closeFile fd result =>
    have hresult : ¬ result < 0 := by simpa [closes] using hcloses
    have hscript : (closeFile fd result).script = [.get, .callFs, .clear, .put, .put] := by
      simp [script, dfsFileClose, hresult]
    rw [hscript]
    exact ⟨le_refl 1, fun _ => trivial⟩
  | closedir fd result =>
    by_cases hresult : result < 0
    · have hscript : (closedir fd result).script = [.get, .callFs, .put, .put] := by
        simp [script, dfsFileClose, hresult]
      rw [hscript]
      exact ⟨le_refl 1, fun _ => trivial⟩
    · have hscript : (closedir fd result).script = [.get, .callFs, .clear, .put, .put] := by
        simp [script, dfsFileClose, hresult]
      rw [hscript]
      exact ⟨le_refl 1, fun _ => trivial⟩
  | openFile opening | mkdir opening result | opendir opening memory result | access fd size pos
  | fstat fd | lseekInvalid fd => cases hcloses

section Runs

variable {cfg : Config} {s s' : Sys}

theorem exists_split {holders : List Holder} {i : ℕ} {h : Holder} (hget : holders[i]? = some h) :
    ∃ l r, holders = l ++ h :: r ∧ ∀ h', holders.set i h' = l ++ h' :: r := by
  obtain ⟨hi, hh⟩ := List.getElem?_eq_some_iff.mp hget
  refine ⟨holders.take i, holders.drop (i + 1), ?_, fun h' => ?_⟩
  · rw [← hh, getElem_cons_drop, take_append_drop]
  · rw [set_eq_take_append_cons_drop, if_pos hi]

theorem Inv.close {t : Table} {l r : List Holder} {fd : ℕ} {c : Contents} {call : Call}
    (hinv : Inv ⟨t, l ++ .opened fd c :: r⟩) (hcloses : call.closes = true) :
    Inv ⟨t, l ++ .run fd call.script :: r⟩ := by
  obtain ⟨hneed, hfills⟩ := takes hcloses
  have howns : (owns call.script).toNat ≤ 1 := Bool.toNat_le _
  have hneed' : ∀ y, Holder.need y (.run fd call.script) ≤ Holder.need y (.opened fd c) := by
    intro y
    have hrun : Holder.need y (.run fd call.script) = if fd = y then need call.script else 0 := rfl
    have hopened : Holder.need y (.opened fd c) = if fd = y then 1 else 0 := rfl
    rw [hrun, hopened]
    split
    · exact hneed
    · exact le_refl 0
  have howner : ∀ y, Holder.owner y (.run fd call.script) ≤ Holder.owner y (.opened fd c) := by
    intro y
    have hrun : Holder.owner y (.run fd call.script) =
      if fd = y then (owns call.script).toNat else 0 := rfl
    have hopened : Holder.owner y (.opened fd c) = if fd = y then 1 else 0 := rfl
    rw [hrun, hopened]
    split
    · exact howns
    · exact le_refl 0
  exact hinv.relax hneed' howner call.script_shaped (hfills _)

theorem Sys.step_inv {event : Event} (hinv : Inv s) (hclean : s.Clean cfg event)
    (hstep : s.step cfg event = some s') : Inv s' := by
  cases event with
  | start call =>
    simp only [Sys.step] at hstep
    split at hstep
    · next hfd =>
        obtain ⟨hneed, howns⟩ := holds_nothing hfd
        rw [← some.inj hstep]
        exact hinv.join hneed howns call.script_shaped
    · cases hstep
  | use i call =>
    cases hget : s.holders[i]? with
    | none =>
      simp only [Sys.step, hget] at hstep
      cases hstep
    | some h =>
      cases h with
      | run fd rest =>
        simp only [Sys.step, hget] at hstep
        cases hstep
      | opened fd c =>
        simp only [Sys.step, hget] at hstep
        split at hstep
        · next hfd =>
            cases hcloses : call.closes with
            | true =>
              rw [if_pos hcloses] at hstep
              obtain ⟨t, holders⟩ := s
              obtain ⟨l, r, rfl, hset⟩ := exists_split hget
              rw [← some.inj hstep]
              rw [hset]
              exact hinv.close hcloses
            | false =>
              rw [hcloses, if_neg Bool.false_ne_true] at hstep
              obtain ⟨hneed, howns⟩ := keeps hfd hcloses
              rw [← some.inj hstep]
              exact hinv.join hneed howns call.script_shaped
        · cases hstep
  | act i =>
    cases hget : s.holders[i]? with
    | none =>
      simp only [Sys.step, hget] at hstep
      cases hstep
    | some h =>
      simp only [Sys.step, hget] at hstep
      obtain ⟨next, hact, rfl⟩ := map_eq_some_iff.mp hstep
      have howed : ∀ fd rest, h = .run fd (.new :: rest) → ∀ next ∈ fdNew cfg s.table,
          ∀ o ∈ s.holders, o.fd = next.1 → owed o.rest = 0 := by
        intro fd rest hnew
        exact hclean h hget (by rw [hnew]; rfl)
      obtain ⟨t, holders⟩ := s
      obtain ⟨l, r, rfl, hset⟩ := exists_split hget
      rw [hset]
      exact hinv.act howed hact

theorem inv_init : Inv Sys.init where
  slots := fun x => ⟨Nat.zero_le 1, .inr ⟨dead_cleared, rfl⟩⟩
  shaped := by simp [Sys.init]
  fills := by simp [Sys.init]

theorem Sys.run_inv (events : List Event) :
    ∀ s, Inv s → s.RunClean cfg events → s.run cfg events = some s' → Inv s' := by
  induction events with
  | nil =>
    intro s hinv _ hrun
    rw [← some.inj hrun]
    exact hinv
  | cons event events ih =>
    intro s hinv hclean hrun
    rw [Sys.run, foldlM_cons] at hrun
    obtain ⟨next, hstep, hrun⟩ := bind_eq_some_iff.mp hrun
    exact ih next (Sys.step_inv hinv hclean.1 hstep) (hclean.2 next hstep) hrun

theorem count_opened_le (x : ℕ) (holders : List Holder) :
    ((holders.filterMap Holder.opened?).map Prod.fst).count x ≤ owners x holders := by
  induction holders with
  | nil => exact le_refl 0
  | cons h holders ih =>
    have howners : owners x (h :: holders) = h.owner x + owners x holders := sum_cons
    cases h with
    | run fd rest => exact ih.trans (le_add_left _ _)
    | opened fd c =>
      rw [howners]
      have hopened : Holder.owner x (.opened fd c) = if fd = x then 1 else 0 := rfl
      have hlist : ((Holder.opened fd c :: holders).filterMap Holder.opened?).map Prod.fst =
          fd :: (holders.filterMap Holder.opened?).map Prod.fst := rfl
      rw [hopened, hlist, count_cons]
      by_cases hfd : fd = x
      · simpa [hfd, add_comm] using ih
      · simpa [hfd] using ih

theorem Inv.bound (hinv : Inv s) : s.Bound where
  nodup := by
    rw [nodup_iff_count_le_one]
    intro x
    exact (count_opened_le x s.holders).trans (hinv.slots x).single
  bound := by
    intro p hp
    obtain ⟨h, hmem, hopened⟩ := mem_filterMap.mp hp
    cases h with
    | run fd rest => cases hopened
    | opened fd c =>
      rw [← some.inj hopened]
      exact hinv.fills _ hmem

/-- In a run in which no `fd_new` takes a slot to which a call still owes an `fd_put`, every open
descriptor keeps its slot, its file system, its path and its data. -/
theorem bound_of_runClean (cfg : Config) (events : List Event) (s : Sys)
    (hclean : Sys.init.RunClean cfg events) (hrun : Sys.init.run cfg events = some s) :
    s.Bound := (Sys.run_inv events Sys.init inv_init hclean hrun).bound

end Runs

def openEvents (i : ℕ) (c : Contents) : List Event :=
  .start (.openFile (.opened c 0 0)) :: List.replicate 7 (.act i)

theorem bound_of_open :
    ((Sys.init.run ⟨3, 4⟩ (openEvents 0 ⟨1, none, 7⟩)).get (by decide +kernel)).Bound :=
  bound_of_runClean ⟨3, 4⟩ (openEvents 0 ⟨1, none, 7⟩) _ (by decide)
    (some_get _).symm

def raceEvents : List Event :=
  openEvents 0 ⟨1, none, 7⟩ ++ [.use 0 (.closeFile 3 0), .act 0, .act 0, .act 0,
      .start (.openFile (.opened ⟨2, none, 8⟩ 0 0)), .act 1, .act 1, .act 1, .act 1, .act 1,
      .act 0, .act 0, .act 1, .act 1]

/-- A descriptor opened while a `close` of it still has two references to put. -/
theorem not_bound_of_race : ¬ ∀ (cfg : Config) (events : List Event) (s : Sys),
      Sys.init.run cfg events = some s → s.Bound := by
  intro h
  have hrun : (Sys.init.run ⟨3, 4⟩ raceEvents).map
      (fun s => (s.opened, (s.table 3).binding)) = some ([(3, ⟨2, none, 8⟩)], none, none, 0) := by
    decide
  obtain ⟨s, hs, hstate⟩ := map_eq_some_iff.mp hrun
  have hbound := (h ⟨3, 4⟩ raceEvents s hs).bound (3, ⟨2, none, 8⟩)
  rw [(Prod.mk.inj hstate).1, (Prod.mk.inj hstate).2] at hbound
  nomatch hbound (mem_singleton.mpr rfl)

end RtThread.Dfs
