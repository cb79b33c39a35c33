import RtThread.KeyedList
import RtThread.PosixNames

/-!
# A name space with reference counts

An entry is created under a name which nobody has, is found under it until it is unlinked,
and is freed by the last close behind that.
-/

namespace RtThread.PosixNames

open Function List Option TransitionSystem

variable {nameMax : ℕ}

def live (s : Space nameMax) (name : Name nameMax) : Option (Entry nameMax) :=
  s.list.find? fun e => e.name = name ∧ e.unlinked = false

/-- Each name has one entry at most, `refcount` counts the opens which have not been closed, and
an entry has been freed when it is unlinked and its count is zero, and only then. -/
structure Counted (s : Space nameMax) : Prop where
  unique : ∀ d ∈ s.list, ∀ e ∈ s.list, d.unlinked = false → e.unlinked = false →
    d.name = e.name → d = e
  refcount : ∀ e ∈ s.list, e.refcount = s.held e.addr
  kept : ∀ e ∈ s.list, ¬(e.unlinked = true ∧ e.refcount = 0)
  freed : ∀ e ∈ s.freed, e.unlinked = true ∧ e.refcount = 0
  created : s.created = s.list.length + s.freed.length

def FindsLive (kind : Kind) (s : Space nameMax) : Call nameMax → Prop
  | .openName name flags alloc object behind =>
    (∀ e, live s name = some e → flags.excl = false →
      (execute kind s (.openName name flags alloc object behind)).1 = .pointer (some e.addr)) ∧
    (live s name = none → flags.creat = false →
      (execute kind s (.openName name flags alloc object behind)).1 = .pointer none)
  | .close _ => True
  | .unlink name behind =>
    (∀ e, live s name = some e → (execute kind s (.unlink name behind)).1 = .code 0 ∧
        live (execute kind s (.unlink name behind)).2 name = none) ∧
    (live s name = none → execute kind s (.unlink name behind) = (.code (-1), s))

def Spelled (behind : UInt32 → List UInt8) (name : Name nameMax) (e : Entry nameMax)
    (next : UInt32) : Prop :=
  strncmpEq nameMax (semText behind e next) name.chars = true

def Silent (behind : UInt32 → List UInt8) (name : Name nameMax)
    (front rest : List (Entry nameMax)) : Prop :=
  ∀ before e after, front = before ++ e :: after → ¬Spelled behind name e (headAddr (after ++ rest))

/-- What is compared with the name tells its entry.  For semaphores the bytes of pointers spell
the name there and nowhere before; for queues no unlinked entry stands for the name when it has
no entry. -/
def Told (kind : Kind) (behind : UInt32 → List UInt8) (s : Space nameMax) (name : Name nameMax) :
    Prop :=
  match kind with
  | .semaphore =>
    (∀ e, live s name = some e → ∃ before after, s.list = before ++ e :: after ∧
      Silent behind name before (e :: after) ∧ Spelled behind name e (headAddr after)) ∧
    (live s name = none → Silent behind name s.list [])
  | .queue => live s name = none → ∀ e ∈ s.list, e.name ≠ name

/-- A name is created when no entry has it, looked up when the texts tell its entry, and its
count does not overflow. -/
def NamesTold (kind : Kind) (s : Space nameMax) : Call nameMax → Prop
  | .openName name flags _ _ behind =>
    if flags.creat = true ∧ flags.excl = false then live s name = none
    else Told kind behind s name ∧
      ∀ e, live s name = some e → flags.creat = false → e.refcount < 65535
  | .close _ => True
  | .unlink name behind => Told kind behind s name

/-! ## Comparing names -/

/-- Names which fit the field compare as texts. -/
theorem strncmpEq_iff {n k : ℕ} {xs ys : List UInt8} (hx : 0 ∉ xs) (hy : 0 ∉ ys)
    (hshort : xs.length < n) : strncmpEq n (xs ++ List.replicate k 0) ys = true ↔ xs = ys := by
  induction n generalizing xs ys with
  | zero => cases hshort
  | succ n ih =>
    cases xs with
    | nil =>
      cases ys with
      | nil => cases k <;> simp [strncmpEq, replicate_succ]
      | cons y ys =>
        have hne : y ≠ 0 := fun h => hy (by simp [h])
        cases k <;> simp [strncmpEq, replicate_succ, Ne.symm hne]
    | cons x xs =>
      have hne : x ≠ 0 := fun h => hx (by simp [h])
      cases ys with
      | nil => simp [strncmpEq, hne]
      | cons y ys =>
        have hx' : 0 ∉ xs := fun h => hx (mem_cons_of_mem _ h)
        have hy' : 0 ∉ ys := fun h => hy (mem_cons_of_mem _ h)
        have ih' := ih hx' hy' (Nat.lt_of_succ_lt_succ hshort)
        by_cases hxy : x = y
        · subst hxy
          simp [strncmpEq, hne, ih']
        · simp [strncmpEq, hxy]

theorem strncmpEq_mqText (e : Entry nameMax) (next : UInt32) (name : Name nameMax) :
    strncmpEq nameMax (mqText e next) name.chars = true ↔ e.name = name := by
  unfold mqText rtStrncpy
  rw [take_of_length_le e.name.short.le,
    strncmpEq_iff e.name.ne_zero name.ne_zero e.name.short]
  constructor
  · intro hchars
    cases hname : e.name
    cases name
    simpa [hname] using hchars
  · intro hname
    rw [hname]

theorem posixMqFind_eq (name : Name nameMax) (list : List (Entry nameMax)) :
    posixMqFind name list = list.find? fun e => e.name = name := by
  induction list with
  | nil => rfl
  | cons e rest ih =>
    have hcompare := strncmpEq_mqText e (headAddr rest) name
    unfold posixMqFind at ih ⊢
    rw [findName, find?_cons]
    by_cases hname : e.name = name
    · rw [if_pos (hcompare.mpr hname)]
      simp [hname]
    · rw [if_neg (fun h => hname (hcompare.mp h)), ih]
      simp [hname]

/-! ## The invariant -/

variable {s s' : Space nameMax} {d e : Entry nameMax} {name : Name nameMax} {addr : UInt32}
  {kind : Kind} {call : Call nameMax} {behind : UInt32 → List UInt8}

def NewerFirst (list : List (Entry nameMax)) : Prop :=
  list.Pairwise fun d e => e.unlinked = false → d.name ≠ e.name

/-- The counts are those of the handles held, and what is unlinked and unheld is freed. -/
structure SpaceInv (s : Space nameMax) : Prop where
  nodup : (s.list.map Entry.addr).Nodup
  newer : NewerFirst s.list
  refcount : ∀ e ∈ s.list, e.refcount = s.held e.addr
  small : ∀ e ∈ s.list, e.refcount < 65536
  outside : ∀ addr, (∀ e ∈ s.list, e.addr ≠ addr) → s.held addr = 0
  kept : ∀ e ∈ s.list, ¬(e.unlinked = true ∧ e.refcount = 0)
  freed : ∀ e ∈ s.freed, e.unlinked = true ∧ e.refcount = 0
  created : s.created = s.list.length + s.freed.length

theorem live_spec (hlive : live s name = some e) :
    e ∈ s.list ∧ e.name = name ∧ e.unlinked = false := by
  have hmem := mem_of_find?_eq_some hlive
  have hname := find?_some hlive
  simp only [decide_eq_true_eq] at hname
  exact ⟨hmem, hname⟩

theorem live_eq_none_iff :
    live s name = none ↔ ∀ e ∈ s.list, e.name = name → e.unlinked = true := by
  unfold live
  simp

theorem find?_name_eq_live {list : List (Entry nameMax)} (hnewer : NewerFirst list)
    (htold : list.find? (fun e => e.name = name ∧ e.unlinked = false) = none →
      ∀ e ∈ list, e.name ≠ name) :
    list.find? (fun e => e.name = name) =
      list.find? fun e => e.name = name ∧ e.unlinked = false := by
  induction list with
  | nil => rfl
  | cons e rest ih =>
    rw [NewerFirst, pairwise_cons] at hnewer
    by_cases hname : e.name = name
    · cases hunlinked : e.unlinked with
      | false => simp [hname, hunlinked]
      | true =>
        have hskip : (e :: rest).find? (fun e => e.name = name ∧ e.unlinked = false) =
            rest.find? fun e => e.name = name ∧ e.unlinked = false := by
          simp [hname, hunlinked]
        rw [hskip] at htold ⊢
        cases hlive : rest.find? fun e => e.name = name ∧ e.unlinked = false with
        | none => exact absurd hname (htold hlive e mem_cons_self)
        | some d =>
          have hmem := mem_of_find?_eq_some hlive
          have hd := find?_some hlive
          simp only [decide_eq_true_eq] at hd
          exact absurd (hname.trans hd.1.symm) (hnewer.1 d hmem hd.2)
    · have hfalse : ¬(e.name = name ∧ e.unlinked = false) := fun h => hname h.1
      have hskip : (e :: rest).find? (fun e => e.name = name ∧ e.unlinked = false) =
          rest.find? fun e => e.name = name ∧ e.unlinked = false := by
        simp [hname]
      rw [hskip] at htold ⊢
      rw [← ih hnewer.2 fun hnone d hd => htold hnone d (mem_cons_of_mem _ hd)]
      simp [hname]

theorem findName_append_of_silent {front rest : List (Entry nameMax)}
    (hsilent : Silent behind name front rest) :
    findName (semText behind) name (front ++ rest) = findName (semText behind) name rest := by
  induction front with
  | nil => rfl
  | cons d front ih =>
    have hd : ¬Spelled behind name d (headAddr (front ++ rest)) := hsilent [] d front rfl
    rw [Spelled] at hd
    have hfront : Silent behind name front rest := fun before e after heq =>
      hsilent (d :: before) e after (congrArg (d :: ·) heq)
    rw [cons_append, findName, if_neg hd, ih hfront]

theorem posixSemFind_eq (htold : Told .semaphore behind s name) :
    posixSemFind behind name s.list = live s name := by
  unfold posixSemFind
  cases hlive : live s name with
  | none =>
    have hsilent := findName_append_of_silent (htold.2 hlive)
    rwa [append_nil] at hsilent
  | some e =>
    obtain ⟨before, after, hlist, hsilent, hspelled⟩ := htold.1 e hlive
    rw [Spelled] at hspelled
    rw [hlist, findName_append_of_silent hsilent, findName, if_pos hspelled]

def Kind.find (kind : Kind) (behind : UInt32 → List UInt8) (name : Name nameMax) :
    List (Entry nameMax) → Option (Entry nameMax) :=
  match kind with
  | .semaphore => posixSemFind behind name
  | .queue => posixMqFind name

theorem SpaceInv.find_eq_live (hinv : SpaceInv s) (htold : Told kind behind s name) :
    kind.find behind name s.list = live s name := by
  cases kind with
  | semaphore => exact posixSemFind_eq htold
  | queue =>
    exact (posixMqFind_eq name s.list).trans (find?_name_eq_live hinv.newer htold)

theorem execute_openName (flags : Flags) (alloc object : Option UInt32) :
    execute kind s (.openName name flags alloc object behind) =
      (.pointer (openName (kind.find behind name) s name flags alloc object).1,
        (openName (kind.find behind name) s name flags alloc object).2) := by
  cases kind <;> rfl

theorem execute_close : execute kind s (.close addr) = (.code 0, closeName s addr) := by
  cases kind <;> rfl

theorem execute_unlink : execute kind s (.unlink name behind) =
      (.code (unlinkName (kind.find behind name) s).1,
        (unlinkName (kind.find behind name) s).2) := by
  cases kind <;> rfl

/-! ## What the calls do with the list -/

theorem mem_setEntry (he : e ∈ s.list) (haddr : d.addr = e.addr) {x : Entry nameMax} :
    x ∈ (s.setEntry d).list ↔ x = d ∨ x ∈ s.list ∧ x.addr ≠ e.addr :=
  mem_replaceKeyed he haddr

theorem addrs_setEntry (s : Space nameMax) (d : Entry nameMax) :
    (s.setEntry d).list.map Entry.addr = s.list.map Entry.addr :=
  map_replaceKeyed Entry.addr d s.list

theorem newerFirst_setEntry (hnewer : NewerFirst s.list) (hnodup : (s.list.map Entry.addr).Nodup)
    (he : e ∈ s.list) (haddr : d.addr = e.addr) (hname : d.name = e.name)
    (hunlinked : d.unlinked = false → e.unlinked = false) : NewerFirst (s.setEntry d).list := by
  have hsame : ∀ x ∈ s.list, (if x.addr = d.addr then d else x).name = x.name ∧
      ((if x.addr = d.addr then d else x).unlinked = false → x.unlinked = false) := by
    intro x hx
    split_ifs with hxd
    · rw [eq_of_key hnodup hx he (hxd.trans haddr)]
      exact ⟨hname, hunlinked⟩
    · exact ⟨rfl, id⟩
  unfold NewerFirst Space.setEntry
  rw [pairwise_map]
  refine List.Pairwise.imp_of_mem (fun {x y} hx hy hxy => ?_) hnewer
  intro hlinked
  rw [(hsame x hx).1, (hsame y hy).1]
  exact hxy ((hsame y hy).2 hlinked)

/-! ## Steps -/

section

variable (hinv : SpaceInv s)
include hinv

theorem SpaceInv.insert (hnone : live s e.name = none)
    (hfresh : ∀ d ∈ s.list, d.addr ≠ e.addr) (hcount : e.refcount = 1) : SpaceInv (s.insert e) := by
  have hheld : s.held e.addr = 0 := hinv.outside e.addr hfresh
  constructor
  · change ((e :: s.list).map Entry.addr).Nodup
    rw [map_cons, nodup_cons]
    refine ⟨fun hmem => ?_, hinv.nodup⟩
    obtain ⟨d, hd, haddr⟩ := mem_map.mp hmem
    exact hfresh d hd haddr
  · refine pairwise_cons.mpr ⟨fun d hd hlinked hname => ?_, hinv.newer⟩
    have hunlinked := live_eq_none_iff.mp hnone d hd hname.symm
    exact Bool.false_ne_true (hlinked.symm.trans hunlinked)
  · intro d hd
    change d.refcount = update s.held e.addr (s.held e.addr + 1) d.addr
    rcases mem_cons.mp hd with rfl | hd
    · rw [update_self, hheld, hcount]
    · rw [update_of_ne (hfresh d hd)]
      exact hinv.refcount d hd
  · intro d hd
    rcases mem_cons.mp hd with rfl | hd
    · rw [hcount]
      decide
    · exact hinv.small d hd
  · intro addr haddr
    have hne : addr ≠ e.addr := fun h => haddr e mem_cons_self h.symm
    change update s.held e.addr (s.held e.addr + 1) addr = 0
    rw [update_of_ne hne]
    exact hinv.outside addr fun d hd => haddr d (mem_cons_of_mem _ hd)
  · intro d hd
    rcases mem_cons.mp hd with rfl | hd
    · rw [hcount]
      exact fun h => absurd h.2 one_ne_zero
    · exact hinv.kept d hd
  · exact hinv.freed
  · change s.created + 1 = s.list.length + 1 + s.freed.length
    rw [hinv.created]
    omega

theorem SpaceInv.setEntry (count : ℕ) (he : e ∈ s.list)
    (haddr : d.addr = e.addr) (hname : d.name = e.name)
    (hunlinked : d.unlinked = false → e.unlinked = false)
    (hcount : d.refcount = count) (hsmall : count < 65536)
    (hkept : ¬(d.unlinked = true ∧ d.refcount = 0)) :
    SpaceInv ({ s with held := update s.held e.addr count }.setEntry d) := by
  have hmem := fun x => mem_setEntry (s := { s with held := update s.held e.addr count })
    (x := x) he haddr
  constructor
  · rw [addrs_setEntry]
    exact hinv.nodup
  · exact newerFirst_setEntry hinv.newer hinv.nodup he haddr hname hunlinked
  · intro x hx
    change x.refcount = update s.held e.addr count x.addr
    rcases (hmem x).mp hx with rfl | ⟨hx, hne⟩
    · rw [haddr, update_self, hcount]
    · rw [update_of_ne hne]
      exact hinv.refcount x hx
  · intro x hx
    rcases (hmem x).mp hx with rfl | ⟨hx, -⟩
    · rwa [hcount]
    · exact hinv.small x hx
  · intro addr hnone
    have hne : addr ≠ e.addr := fun h => hnone d ((hmem d).mpr (.inl rfl)) (haddr.trans h.symm)
    change update s.held e.addr count addr = 0
    rw [update_of_ne hne]
    refine hinv.outside addr fun x hx hxa => hnone x ((hmem x).mpr (.inr ⟨hx, ?_⟩)) hxa
    rw [hxa]
    exact hne
  · intro x hx
    rcases (hmem x).mp hx with rfl | ⟨hx, -⟩
    · exact hkept
    · exact hinv.kept x hx
  · exact hinv.freed
  · change s.created = (s.list.map _).length + s.freed.length
    rw [length_map]
    exact hinv.created

theorem SpaceInv.delete (he : e ∈ s.list) (haddr : d.addr = e.addr)
    (hname : d.name = e.name) (hunlinked : d.unlinked = true) (hcount : d.refcount = 0) :
    SpaceInv (({ s with held := update s.held e.addr 0 }.setEntry d).delete d) := by
  have hmem := fun x => mem_setEntry (s := { s with held := update s.held e.addr 0 })
    (x := x) he haddr
  have haddrs := addrs_setEntry { s with held := update s.held e.addr 0 } d
  generalize hs₁ : { s with held := update s.held e.addr 0 }.setEntry d = s₁ at hmem haddrs
  have hheld : s₁.held = update s.held e.addr 0 := by rw [← hs₁]; rfl
  have hfreed : s₁.freed = s.freed := by rw [← hs₁]; rfl
  have hcreated : s₁.created = s.created := by rw [← hs₁]; rfl
  have hlength : s₁.list.length = s.list.length := by
    have h := congrArg List.length haddrs
    rwa [length_map, length_map] at h
  have hnewer : NewerFirst s₁.list := by
    rw [← hs₁]
    exact newerFirst_setEntry hinv.newer hinv.nodup he haddr hname
      fun h => absurd (hunlinked.symm.trans h) Bool.noConfusion
  have hnodup : (s₁.list.map Entry.addr).Nodup := haddrs ▸ hinv.nodup
  have hleft : ∀ x, x ∈ (s₁.delete d).list ↔ x ∈ s.list ∧ x.addr ≠ e.addr := by
    intro x
    change x ∈ s₁.list.eraseP (fun y => y.addr = d.addr) ↔ _
    rw [mem_eraseP_keyed hnodup, hmem, haddr]
    constructor
    · rintro ⟨rfl | hx, hne⟩
      · contradiction
      · exact hx
    · exact fun hx => ⟨.inr hx, hx.2⟩
  constructor
  · exact hnodup.sublist (eraseP_sublist.map _)
  · exact hnewer.sublist eraseP_sublist
  · intro x hx
    obtain ⟨hx, hne⟩ := (hleft x).mp hx
    change x.refcount = s₁.held x.addr
    rw [hheld, update_of_ne hne]
    exact hinv.refcount x hx
  · intro x hx
    exact hinv.small x ((hleft x).mp hx).1
  · intro addr hnone
    change s₁.held addr = 0
    rw [hheld]
    by_cases haddr' : addr = e.addr
    · rw [haddr', update_self]
    · rw [update_of_ne haddr']
      refine hinv.outside addr fun x hx hxa => hnone x ((hleft x).mpr ⟨hx, ?_⟩) hxa
      rw [hxa]
      exact haddr'
  · intro x hx
    exact hinv.kept x ((hleft x).mp hx).1
  · intro x hx
    change x ∈ s₁.freed ++ [d] at hx
    rw [hfreed, mem_append, mem_singleton] at hx
    rcases hx with hx | rfl
    · exact hinv.freed x hx
    · exact ⟨hunlinked, hcount⟩
  · change s₁.created = (s₁.list.eraseP _).length + (s₁.freed ++ [d]).length
    have hfirst : d ∈ s₁.list := (hmem d).mpr (.inl rfl)
    rw [length_eraseP_of_mem hfirst (by simp), length_append, hfreed, hcreated, hlength,
      hinv.created, length_singleton]
    have hpos := length_pos_of_mem he
    omega

theorem SpaceInv.reopen (he : e ∈ s.list)
    (hlinked : e.unlinked = false) (hroom : e.refcount < 65535) : SpaceInv (s.reopen e) := by
  have hcount := hinv.refcount e he
  refine hinv.setEntry (s.held e.addr + 1) (d := { e with refcount := (e.refcount + 1) % 65536 })
    he rfl rfl (fun _ => hlinked) ?_ (by omega) fun h => ?_
  · change (e.refcount + 1) % 65536 = s.held e.addr + 1
    omega
  · exact Bool.false_ne_true (hlinked.symm.trans h.1)

theorem SpaceInv.openName {flags : Flags} {alloc object : Option UInt32}
    (hguard : NamesTold kind s (.openName name flags alloc object behind))
    (henabled : Call.Enabled s (.openName name flags alloc object behind)) :
    SpaceInv (openName (kind.find behind name) s name flags alloc object).2 := by
  unfold PosixNames.openName
  rw [NamesTold] at hguard
  by_cases hcreat : flags.creat = true
  · rw [if_pos hcreat]
    split_ifs with hexists
    · exact hinv
    · have hnone : live s name = none := by
        by_cases hexcl : flags.excl = true
        · rw [if_neg (by simp [hexcl])] at hguard
          rw [← hinv.find_eq_live hguard.1]
          simpa [hexcl] using hexists
        · rwa [if_pos ⟨hcreat, by simpa using hexcl⟩] at hguard
      cases alloc with
      | none => exact hinv
      | some addr =>
        cases object with
        | none => exact hinv
        | some object => exact hinv.insert hnone (henabled addr rfl).2 rfl
  · rw [if_neg fun h => hcreat h.1] at hguard
    rw [if_neg hcreat, hinv.find_eq_live hguard.1]
    cases hlive : live s name with
    | none => exact hinv
    | some e =>
      obtain ⟨he, -, hlinked⟩ := live_spec hlive
      exact hinv.reopen he hlinked (hguard.2 e hlive (by simpa using hcreat))

theorem SpaceInv.close (henabled : Call.Enabled s (.close addr)) : SpaceInv (closeName s addr) := by
  have hopen : 0 < s.held addr := henabled
  unfold closeName
  cases hfind : s.list.find? fun e => e.addr = addr with
  | none => exact hinv
  | some e =>
    have he := mem_of_find?_eq_some hfind
    have haddr : e.addr = addr := by simpa using find?_some hfind
    subst haddr
    have hcount := hinv.refcount e he
    have hsmall := hinv.small e he
    have hless : (e.refcount + 65535) % 65536 = s.held e.addr - 1 := by lia
    dsimp only
    split_ifs with hlast
    · have hzero : s.held e.addr - 1 = 0 := hless.symm.trans hlast.1
      rw [hzero]
      exact hinv.delete he rfl rfl hlast.2 hlast.1
    · exact hinv.setEntry _ he rfl rfl id hless (by lia) fun h => hlast h.symm

theorem SpaceInv.unlink (htold : Told kind behind s name) :
    SpaceInv (unlinkName (kind.find behind name) s).2 := by
  unfold unlinkName
  rw [hinv.find_eq_live htold]
  cases hlive : live s name with
  | none => exact hinv
  | some e =>
    obtain ⟨he, -, hlinked⟩ := live_spec hlive
    have hcount := hinv.refcount e he
    have hsmall := hinv.small e he
    dsimp only
    split_ifs with hzero
    · have hheld : update s.held e.addr 0 = s.held := by
        rw [← hzero, hcount, update_eq_self]
      have hdelete := hinv.delete (d := { e with unlinked := true }) he rfl rfl rfl hzero
      rwa [hheld] at hdelete
    · have hheld : update s.held e.addr e.refcount = s.held := by
        rw [hcount, update_eq_self]
      have hset := hinv.setEntry e.refcount (d := { e with unlinked := true }) he rfl
        rfl (nofun) rfl hsmall fun h => hzero h.2
      rwa [hheld] at hset

/-- The counts follow the descriptors as long as names are told apart. -/
theorem SpaceInv.step (hguard : NamesTold kind s call)
    (hstep : (spaceSystem nameMax kind).step s call s') : SpaceInv s' := by
  obtain ⟨henabled, rfl⟩ := hstep
  cases call with
  | openName name flags alloc object behind =>
    rw [execute_openName]
    exact hinv.openName hguard henabled
  | close addr =>
    rw [execute_close]
    exact hinv.close henabled
  | unlink name behind =>
    rw [execute_unlink]
    exact hinv.unlink hguard

end

theorem spaceInv_init (hinit : (spaceSystem nameMax kind).init s) : SpaceInv s := by
  obtain ⟨hlist, hheld, hfreed, hcreated⟩ := hinit
  constructor <;> simp [hlist, hheld, hfreed, hcreated, NewerFirst]

/-! ## What the calls return -/

theorem SpaceInv.counted (hinv : SpaceInv s) : Counted s :=
  { hinv with
    unique d hd e he hdl hel hname := by
      by_contra hne
      have hsymm : Std.Symm fun d e : Entry nameMax =>
          d.unlinked = false → e.unlinked = false → d.name ≠ e.name :=
        ⟨fun _ _ h h₁ h₂ hsame => h h₂ h₁ hsame.symm⟩
      have hpair : s.list.Pairwise fun d e => d.unlinked = false → e.unlinked = false →
          d.name ≠ e.name := hinv.newer.imp fun h _ hel => h hel
      exact hpair.forall hd he hne hdl hel hname }

theorem SpaceInv.live_unlink (hinv : SpaceInv s) (hlive : live s name = some e) :
    live (s.setEntry { e with unlinked := true }) name = none := by
  obtain ⟨he, hname, hlinked⟩ := live_spec hlive
  rw [live_eq_none_iff]
  intro x hx hxname
  rcases (mem_setEntry (d := { e with unlinked := true }) he rfl).mp hx with rfl | ⟨hx, hne⟩
  · rfl
  · by_contra hxl
    have hsame := hinv.counted.unique x hx e he (by simpa using hxl) hlinked
      (hxname.trans hname.symm)
    exact hne (congrArg Entry.addr hsame)

theorem live_delete (hnone : live s name = none) : live (s.delete d) name = none := by
  rw [live_eq_none_iff] at hnone ⊢
  exact fun x hx => hnone x (mem_of_mem_eraseP hx)

theorem SpaceInv.findsLive (hinv : SpaceInv s) (hguard : NamesTold kind s call) :
    FindsLive kind s call := by
  cases call with
  | openName name flags alloc object behind =>
    rw [FindsLive, execute_openName]
    rw [NamesTold] at hguard
    constructor
    · intro e hlive hexcl
      have hcreat : flags.creat = false := by
        by_contra hcreat
        rw [if_pos ⟨by simpa using hcreat, hexcl⟩, hlive] at hguard
        exact some_ne_none e hguard
      rw [if_neg (by simp [hcreat])] at hguard
      unfold PosixNames.openName
      rw [if_neg (by simp [hcreat]), hinv.find_eq_live hguard.1, hlive]
    · intro hlive hcreat
      rw [if_neg (by simp [hcreat])] at hguard
      unfold PosixNames.openName
      rw [if_neg (by simp [hcreat]), hinv.find_eq_live hguard.1, hlive]
  | close addr => trivial
  | unlink name behind =>
    rw [FindsLive, execute_unlink]
    unfold unlinkName
    rw [hinv.find_eq_live hguard]
    constructor
    · intro e hlive
      rw [hlive]
      refine ⟨rfl, ?_⟩
      dsimp only
      split_ifs
      · exact live_delete (hinv.live_unlink hlive)
      · exact hinv.live_unlink hlive
    · intro hlive
      rw [hlive]

/-- In every run in which names are told apart, the entries are counted and every call finds the
entry of its name. -/
theorem counted_and_findsLive (nameMax : ℕ) (kind : Kind) (s : Space nameMax)
    (hreach : (spaceSystem nameMax kind).Reachable (NamesTold kind) s) :
    Counted s ∧ ∀ call, NamesTold kind s call → FindsLive kind s call := by
  have hinv : SpaceInv s :=
    hreach.invariant (fun _ => spaceInv_init) fun _ _ _ hinv hguard hstep => hinv.step hguard hstep
  exact ⟨hinv.counted, fun _ hguard => hinv.findsLive hguard⟩

/-! ## A name of two bytes -/

def emptySpace : Space 8 := ⟨[], fun _ => 0, [], 0⟩

theorem init_emptySpace (kind : Kind) : (spaceSystem 8 kind).init emptySpace :=
  ⟨rfl, fun _ => rfl, rfl, rfl⟩

def pointerName : Name 8 := ⟨[0x34, 0x12], by decide, by decide⟩

theorem told_singleton (hlist : s.list = [e]) (hname : e.name = name)
    (hlinked : e.unlinked = false) (hspelled : Spelled behind name e 0) :
    Told kind behind s name := by
  have hlive : live s name = some e := by simp [live, hlist, hname, hlinked]
  cases kind with
  | semaphore =>
    refine ⟨fun d hd => ?_, fun hnone => absurd (hlive.symm.trans hnone) (some_ne_none e)⟩
    obtain rfl : e = d := some.inj (hlive.symm.trans hd)
    refine ⟨[], [], hlist, fun before d after heq => ?_, hspelled⟩
    cases before <;> cases heq
  | queue => exact fun hnone => absurd (hlive.symm.trans hnone) (some_ne_none e)

def onlyEntry (s : Space 8) (name : Name 8) (behind : UInt32 → List UInt8) : Bool :=
  match s.list with
  | [e] => e.name = name ∧ e.unlinked = false ∧ e.refcount < 65535 ∧
      strncmpEq 8 (semText behind e 0) name.chars = true
  | _ => false

variable (kind) in
theorem told_of_onlyEntry {s : Space 8} {name : Name 8} (honly : onlyEntry s name behind = true) :
    Told kind behind s name ∧ ∀ e, live s name = some e → e.refcount < 65535 := by
  unfold onlyEntry at honly
  split at honly
  · rename_i e hlist
    obtain ⟨hname, hlinked, hroom, hspelled⟩ := of_decide_eq_true honly
    refine ⟨told_singleton hlist hname hlinked hspelled, fun d hd => ?_⟩
    have hmem := (live_spec hd).1
    rw [hlist, mem_singleton] at hmem
    rwa [hmem]
  · cases honly

def tellsOne (s : Space 8) : Call 8 → Bool
  | .openName name ⟨true, false⟩ (some addr) _ _ =>
    decide (live s name = none ∧ addr ≠ 0 ∧ ∀ e ∈ s.list, e.addr ≠ addr)
  | .openName name ⟨false, _⟩ none _ behind => onlyEntry s name behind
  | .openName _ _ _ _ _ => false
  | .close addr => decide (0 < s.held addr)
  | .unlink name behind => onlyEntry s name behind

theorem counted_of_pointerName :
    (∃ s, (spaceSystem 8 .semaphore).Reachable (NamesTold .semaphore) s ∧
      (s.list.length, s.freed.length) = (0, 1) ∧ Counted s ∧
      ∀ call, NamesTold .semaphore s call → FindsLive .semaphore s call) ∧
    ∃ s, (spaceSystem 8 .queue).Reachable (NamesTold .queue) s ∧
      (s.list.length, s.freed.length) = (0, 1) ∧ Counted s ∧
      ∀ call, NamesTold .queue s call → FindsLive .queue s call := by
  have hrun : ∀ kind, (tryRun
      tellsOne (fun s call => (execute kind s call).2)
      [.openName pointerName ⟨true, false⟩ (some 0x20001000) (some 0x20001234) fun _ => [],
        .openName pointerName ⟨false, false⟩ none none fun _ => [],
        .close 0x20001000, .unlink pointerName fun _ => [], .close 0x20001000]
      emptySpace).map (fun s => (s.list.length, s.freed.length)) = some (0, 1) := by
    intro kind
    cases kind <;> decide
  have hreach := fun kind => exists_tryRun (NamesTold kind)
    (init_emptySpace kind) (hrun kind) (by
      intro s call htest
      unfold tellsOne at htest
      split at htest
      · obtain ⟨hnone, hfresh⟩ := of_decide_eq_true htest
        exact ⟨hnone, fun _ ha => mem_some.mp ha ▸ hfresh, rfl⟩
      · have htold := told_of_onlyEntry kind htest
        exact ⟨⟨htold.1, fun e he _ => htold.2 e he⟩, fun _ ha => absurd ha (by simp), rfl⟩
      · cases htest
      · exact ⟨trivial, (of_decide_eq_true htest :), rfl⟩
      · exact ⟨(told_of_onlyEntry kind htest).1, trivial, rfl⟩)
  obtain ⟨s, hs, hview⟩ := hreach .semaphore
  obtain ⟨q, hq, hqview⟩ := hreach .queue
  exact ⟨⟨s, hs, hview, counted_and_findsLive 8 .semaphore s hs⟩,
    q, hq, hqview, counted_and_findsLive 8 .queue q hq⟩

def letterName : Name 8 := ⟨[97], by decide, by decide⟩

def allowed (s : Space 8) : Call 8 → Bool
  | .openName _ _ (some addr) _ _ => decide (addr ≠ 0 ∧ ∀ e ∈ s.list, e.addr ≠ addr)
  | .openName _ _ none _ _ => true
  | .close addr => decide (0 < s.held addr)
  | .unlink _ _ => true

theorem step_of_allowed (kind : Kind) (s : Space 8) (call : Call 8)
    (htest : allowed s call = true) :
    True ∧ (spaceSystem 8 kind).step s call (execute kind s call).2 := by
  refine ⟨trivial, ?_, rfl⟩
  unfold allowed at htest
  split at htest
  · exact fun _ ha => mem_some.mp ha ▸ of_decide_eq_true htest
  · exact fun _ ha => absurd ha (by simp)
  · exact (of_decide_eq_true htest :)
  · trivial

/-- A semaphore is not found under its name, two queues have one name, and a queue is found after
its name has been unlinked. -/
theorem not_counted_and_findsLive :
    (∃ s call, (spaceSystem 8 .semaphore).Reachable (fun _ _ => True) s ∧
      ¬FindsLive .semaphore s call) ∧
    (∃ s, (spaceSystem 8 .queue).Reachable (fun _ _ => True) s ∧ ¬Counted s) ∧
    ∃ s call, (spaceSystem 8 .queue).Reachable (fun _ _ => True) s ∧ ¬FindsLive .queue s call := by
  have hlost : (tryRun allowed (fun s call => (execute .semaphore s call).2)
      [.openName letterName ⟨true, false⟩ (some 0x20001000) (some 0x20001234) fun _ => []]
      emptySpace).map (fun s => (live s letterName,
        (execute .semaphore s (.openName letterName ⟨false, false⟩ none none fun _ => [])).1)) =
      some (some ⟨0x20001000, 1, false, 0x20001234, letterName⟩, .pointer none) := by
    decide
  have htwice : (tryRun allowed (fun s call => (execute .queue s call).2)
      [.openName letterName ⟨true, false⟩ (some 0x20001000) (some 0x20001234) fun _ => [],
        .openName letterName ⟨true, false⟩ (some 0x20002000) (some 0x20002234) fun _ => []]
      emptySpace).map Space.list = some [⟨0x20002000, 1, false, 0x20002234, letterName⟩,
        ⟨0x20001000, 1, false, 0x20001234, letterName⟩] := by
    decide
  have hunlinked : (tryRun allowed (fun s call => (execute .queue s call).2)
      [.openName letterName ⟨true, false⟩ (some 0x20001000) (some 0x20001234) fun _ => [],
        .unlink letterName fun _ => []]
      emptySpace).map (fun s => (live s letterName,
        (execute .queue s (.openName letterName ⟨false, false⟩ none none fun _ => [])).1)) =
      some (none, .pointer (some 0x20001000)) := by
    decide
  refine ⟨?_, ?_, ?_⟩
  · obtain ⟨s, hreach, hview⟩ := exists_tryRun (fun _ _ => True)
      (init_emptySpace .semaphore) hlost (step_of_allowed .semaphore)
    rw [Prod.mk.injEq] at hview
    refine ⟨s, .openName letterName ⟨false, false⟩ none none fun _ => [], hreach, fun hfinds => ?_⟩
    have hfound := hview.2.symm.trans (hfinds.1 _ hview.1 rfl)
    cases hfound
  · obtain ⟨s, hreach, hview⟩ := exists_tryRun (fun _ _ => True)
      (init_emptySpace .queue) htwice (step_of_allowed .queue)
    refine ⟨s, hreach, fun hcounted => ?_⟩
    have hsame := hcounted.unique ⟨0x20002000, 1, false, 0x20002234, letterName⟩
      (by simp [hview]) ⟨0x20001000, 1, false, 0x20001234, letterName⟩ (by simp [hview])
      rfl rfl rfl
    cases hsame
  · obtain ⟨s, hreach, hview⟩ := exists_tryRun (fun _ _ => True)
      (init_emptySpace .queue) hunlinked (step_of_allowed .queue)
    rw [Prod.mk.injEq] at hview
    refine ⟨s, .openName letterName ⟨false, false⟩ none none fun _ => [], hreach, fun hfinds => ?_⟩
    have hfound := hview.2.symm.trans (hfinds.2 hview.1 rfl)
    cases hfound

end RtThread.PosixNames
