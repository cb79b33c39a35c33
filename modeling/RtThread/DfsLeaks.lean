import RtThread.DfsDescriptors

/-!
# Leaked descriptors

One thread makes calls one after the other.  Most exits of the calls put back
what they took; the error exits of `lseek` and of `mkdir` do not.
-/

namespace RtThread.Dfs

open Function List Option Call Dfs.Action

/-- The steps of a call without interruption: the descriptors that it returns, and the table,
unless it follows a null pointer. -/
def runScript (cfg : Config) : List Action → ℕ → Table → Option (List ℕ × Table)
  | [], _, t => some ([], t)
  | a :: rest, fd, t =>
    match a.exec cfg fd t with
    | .next fd t =>
      (runScript cfg rest fd t).map fun result =>
        (match a with
          | .ret _ => fd :: result.1
          | _ => result.1, result.2)
    | .leave => some ([], t)
    | .fault => none

def seekOffset (d : DfsFd) (offset : Word) (whence : ℤ) : Option Word :=
  let moved := if whence = 0 then some offset
    else if whence = 1 then some (offset + d.pos)
    else if whence = 2 then some (offset + d.size)
    else none
  moved.filter fun offset => !offset.slt 0

inductive Request
  | call (c : Call)
  | lseek (fd : ℕ) (offset : Word) (whence : ℤ) (size pos : Word)

def Request.resolve (t : Table) : Request → Call
  | .call c => c
  | .lseek fd offset whence size pos =>
    if (seekOffset (t fd) offset whence).isSome then .access fd size pos else .lseekInvalid fd

structure State where
  table : Table
  /-- The descriptors returned and not yet closed. -/
  opened : List ℕ

def Call.run (cfg : Config) (call : Call) (s : State) : Option State :=
  (runScript cfg call.script (call.fd.getD 0) s.table).map fun result =>
    { table := result.2
      opened := result.1 ++
        if call.closes then s.opened.filter fun fd => call.fd ≠ some fd else s.opened }

def State.step (cfg : Config) (s : State) (request : Request) : Option State :=
  (request.resolve s.table).run cfg s

def State.run (cfg : Config) (requests : List Request) (s : State) : Option State :=
  requests.foldlM (State.step cfg) s

def init : State where
  table := fun _ => .cleared
  opened := []

/-- The slots in use are those the program has open, each counted once. -/
structure Balanced (cfg : Config) (s : State) : Prop where
  refused_iff : ∀ fd, cfg.InRange fd → (0 < (s.table fd).refCount ↔ fd ∈ s.opened)
  counted : ∀ fd ∈ s.opened, (s.table fd).refCount = 1

def Call.PutsBack (cfg : Config) (t : Table) : Call → Prop
  | .lseekInvalid fd => (fdGet cfg fd t).isNone
  | .mkdir opening result =>
    (fdNew cfg t).isNone ∨ match opening with
      | .noPath => False
      | .noFilesystem => False
      | .noOperation _ _ => True
      | .failed _ _ => True
      | .opened _ _ _ => 0 ≤ result
  | _ => True

instance (cfg : Config) (t : Table) : (call : Call) → Decidable (call.PutsBack cfg t)
  | .lseekInvalid _ => inferInstanceAs (Decidable (_ = _))
  | .mkdir .noPath _ => inferInstanceAs (Decidable (_ ∨ _))
  | .mkdir .noFilesystem _ => inferInstanceAs (Decidable (_ ∨ _))
  | .mkdir (.noOperation _ _) _ => inferInstanceAs (Decidable (_ ∨ _))
  | .mkdir (.failed _ _) _ => inferInstanceAs (Decidable (_ ∨ _))
  | .mkdir (.opened _ _ _) _ => inferInstanceAs (Decidable (_ ∨ _))
  | .openFile _ => inferInstanceAs (Decidable True)
  | .closeFile _ _ => inferInstanceAs (Decidable True)
  | .access _ _ _ => inferInstanceAs (Decidable True)
  | .fstat _ => inferInstanceAs (Decidable True)
  | .opendir _ _ _ => inferInstanceAs (Decidable True)
  | .closedir _ _ => inferInstanceAs (Decidable True)

def RunPutsBack (cfg : Config) : State → List Request → Prop
  | _, [] => True
  | s, request :: requests =>
    (request.resolve s.table).PutsBack cfg s.table ∧
      ∀ s' ∈ s.step cfg request, RunPutsBack cfg s' requests

instance decidableRunPutsBack (cfg : Config) :
    ∀ (requests : List Request) (s : State), Decidable (RunPutsBack cfg s requests)
  | [], _ => isTrue trivial
  | _ :: requests, _ =>
    have : ∀ s', Decidable (RunPutsBack cfg s' requests) := decidableRunPutsBack cfg requests
    inferInstanceAs (Decidable (_ ∧ _))

def DfsFd.Opened (d : DfsFd) : Prop :=
  d.refCount = 1 ∧ d.magic = DFS_FD_MAGIC ∧ d.fs ≠ none

def DfsFd.Closed (d : DfsFd) : Prop := d.refCount ≤ 0 ∧ d.magic ≠ DFS_FD_MAGIC

structure Tidy (cfg : Config) (s : State) : Prop where
  inRange : ∀ fd ∈ s.opened, cfg.InRange fd
  opened : ∀ fd ∈ s.opened, (s.table fd).Opened
  closed : ∀ fd, cfg.InRange fd → fd ∉ s.opened → (s.table fd).Closed

section Steps

variable {cfg : Config} {s : State} {t : Table} {fd idx : ℕ} {d : DfsFd} {call : Call}
  {rest : List Action}

theorem Tidy.balanced (h : Tidy cfg s) : Balanced cfg s where
  refused_iff := by
    intro fd hrange
    constructor
    · intro hpos
      by_contra hclosed
      exact absurd (h.closed fd hrange hclosed).1 (not_le.mpr hpos)
    · intro hopen
      rw [(h.opened fd hopen).1]
      exact one_pos
  counted := fun fd hopen => (h.opened fd hopen).1

theorem tidy_init : Tidy cfg init where
  inRange := by simp [init]
  opened := by simp [init]
  closed := by
    intro fd _ _
    have hmagic : (0 : ℕ) ≠ DFS_FD_MAGIC := by decide
    exact ⟨le_refl _, hmagic⟩

section

variable (h : Tidy cfg s)
include h

theorem Tidy.keep (hopen : fd ∈ s.opened) (hd : d.Opened) :
    Tidy cfg { s with table := update s.table fd d } where
  inRange := h.inRange
  opened := by
    intro other hother
    dsimp only
    by_cases hsame : other = fd
    · rw [hsame, update_self]
      exact hd
    · rw [update_of_ne hsame]
      exact h.opened other hother
  closed := by
    intro other hrange hclosed
    dsimp only
    have hne : other ≠ fd := fun hsame => hclosed (hsame ▸ hopen)
    rw [update_of_ne hne]
    exact h.closed other hrange hclosed

theorem Tidy.addOpen (hrange : cfg.InRange fd) (hd : d.Opened) :
    Tidy cfg { table := update s.table fd d, opened := fd :: s.opened } where
  inRange := by
    intro other hother
    obtain rfl | hother := mem_cons.mp hother
    · exact hrange
    · exact h.inRange other hother
  opened := by
    intro other hother
    dsimp only
    by_cases hsame : other = fd
    · rw [hsame, update_self]
      exact hd
    · rw [update_of_ne hsame]
      exact h.opened other ((mem_cons.mp hother).resolve_left hsame)
  closed := by
    intro other hother hclosed
    rw [mem_cons, not_or] at hclosed
    obtain ⟨hne, hclosed⟩ := hclosed
    dsimp only
    rw [update_of_ne hne]
    exact h.closed other hother hclosed

theorem Tidy.dropOpen (fd : ℕ) (hd : d.Closed) :
    Tidy cfg { table := update s.table fd d, opened := s.opened.filter (· ≠ fd) } where
  inRange := fun other hother => h.inRange other (mem_of_mem_filter hother)
  opened := by
    intro other hother
    obtain ⟨hmem, hne⟩ := mem_filter.mp hother
    have hne : other ≠ fd := by simpa using hne
    dsimp only
    rw [update_of_ne hne]
    exact h.opened other hmem
  closed := by
    intro other hrange hclosed
    dsimp only
    by_cases hsame : other = fd
    · rw [hsame, update_self]
      exact hd
    · have hold : other ∉ s.opened := fun hmem =>
        hclosed (mem_filter.mpr ⟨hmem, by simpa using hsame⟩)
      rw [update_of_ne hsame]
      exact h.closed other hrange hold

theorem Tidy.keepClosed (hclosed : fd ∉ s.opened) (hd : d.Closed) :
    Tidy cfg { s with table := update s.table fd d } := by
  have hfilter : s.opened.filter (· ≠ fd) = s.opened :=
    filter_eq_self.mpr fun other hmem => by
      have hne : other ≠ fd := fun hsame => hclosed (hsame ▸ hmem)
      simpa using hne
  have hdrop := h.dropOpen fd hd
  rw [hfilter] at hdrop
  exact hdrop

theorem fdGet_none (hclosed : fd ∉ s.opened) : fdGet cfg fd s.table = none := by
  unfold fdGet
  by_cases hrange : cfg.InRange fd
  · rw [if_neg (fun hget => (h.closed fd hrange hclosed).2 hget.2)]
  · rw [if_neg (fun hget => hrange hget.1)]

theorem fdGet_some (hopen : fd ∈ s.opened) :
    fdGet cfg fd s.table = some (update s.table fd { s.table fd with refCount := 2 }) := by
  obtain ⟨hcount, hmagic, -⟩ := h.opened fd hopen
  unfold fdGet
  rw [if_pos ⟨h.inRange fd hopen, hmagic⟩, hcount]
  rfl

theorem fdNew_some {next : ℕ × Table} (hnew : fdNew cfg s.table = some next) :
    cfg.InRange next.1 ∧ next.1 ∉ s.opened ∧ next.2 = update s.table next.1
        { s.table next.1 with refCount := 1, magic := DFS_FD_MAGIC } := by
  unfold fdNew at hnew
  obtain ⟨idx, hfind, rfl⟩ := map_eq_some_iff.mp hnew
  have hfree : (s.table idx).refCount ≤ 0 := by simpa using find?_some hfind
  have hmem := mem_of_find?_eq_some hfind
  rw [mem_range'_1] at hmem
  refine ⟨hmem, fun hopen => ?_, rfl⟩
  have hone := (h.opened idx hopen).1
  dsimp only at hopen
  omega

theorem runScript_get_closed (hclosed : fd ∉ s.opened) :
    runScript cfg (.get :: rest) fd s.table = some ([], s.table) := by
  rw [runScript, exec, fdGet_none h hclosed]

theorem runScript_get_open (hopen : fd ∈ s.opened) : runScript cfg (.get :: rest) fd s.table =
      runScript cfg rest fd (update s.table fd { s.table fd with refCount := 2 }) := by
  rw [runScript, exec, fdGet_some h hopen]
  simp

end

theorem runScript_new_none (hnew : fdNew cfg t = none) :
    runScript cfg (.new :: rest) fd t = some ([], t) := by
  rw [runScript, exec, hnew]

def DfsFd.taken (d : DfsFd) : DfsFd := { d with refCount := 2, magic := DFS_FD_MAGIC }

theorem runScript_new_some {next : ℕ × Table} (h : Tidy cfg s)
    (hnew : fdNew cfg s.table = some next) : runScript cfg (.new :: .getNew :: rest) fd s.table =
      runScript cfg rest next.1 (update s.table next.1 (s.table next.1).taken) := by
  obtain ⟨hrange, -, htable⟩ := fdNew_some h hnew
  have hget : fdGet cfg next.1 next.2 =
      some (update s.table next.1 (s.table next.1).taken) := by
    unfold fdGet
    rw [htable, update_self, if_pos ⟨hrange, rfl⟩, update_idem]
    rfl
  simp [runScript, exec, hnew, hget]

def Leaves (cfg : Config) (P : DfsFd → Prop) (rest : List Action) (d : DfsFd) : Prop :=
  ∀ (fd : ℕ) (t : Table), ∃ d' : DfsFd, P d' ∧
    runScript cfg rest fd (update t fd d) = some ([], update t fd d')

def Returns (cfg : Config) (rest : List Action) (d : DfsFd) : Prop :=
  ∀ (fd : ℕ) (t : Table), ∃ d' : DfsFd, d'.Opened ∧
    runScript cfg rest fd (update t fd d) = some ([fd], update t fd d')

theorem magic_ne_zero : (0 : ℕ) ≠ DFS_FD_MAGIC := by decide

theorem leaves_clear_put : Leaves cfg DfsFd.Closed [.clear, .put] d := by
  intro fd t
  have hclosed : DfsFd.Closed { DfsFd.cleared with refCount := -1 } := ⟨by decide, magic_ne_zero⟩
  exact ⟨_, hclosed, by simp [runScript, exec, DfsFd.put, DfsFd.cleared]⟩

theorem leaves_clear_put_put : Leaves cfg DfsFd.Closed [.clear, .put, .put] d := by
  intro fd t
  have hclosed : DfsFd.Closed { DfsFd.cleared with refCount := -2 } := ⟨by decide, magic_ne_zero⟩
  exact ⟨_, hclosed, by simp [runScript, exec, DfsFd.put, DfsFd.cleared]⟩

theorem leaves_put_put (hcount : d.refCount = 2) : Leaves cfg DfsFd.Closed [.put, .put] d := by
  intro fd t
  have hclosed : DfsFd.cleared.Closed := ⟨le_refl _, magic_ne_zero⟩
  exact ⟨_, hclosed, by simp [runScript, exec, DfsFd.put, hcount]⟩

theorem leaves_put (hcount : d.refCount = 2) (hmagic : d.magic = DFS_FD_MAGIC)
    (hfs : d.fs ≠ none) : Leaves cfg DfsFd.Opened [.put] d := by
  intro fd t
  have hopened : DfsFd.Opened { d with refCount := 1 } := ⟨rfl, hmagic, hfs⟩
  exact ⟨_, hopened, by simp [runScript, exec, DfsFd.put, hcount]⟩

theorem Leaves.callFs {P : DfsFd → Prop} (h : Leaves cfg P rest d) (hfs : d.fs ≠ none) :
    Leaves cfg P (.callFs :: rest) d := by
  intro fd t
  obtain ⟨d', hd', hrun⟩ := h fd t
  exact ⟨d', hd', by simp [runScript, exec, hfs, hrun]⟩

theorem Leaves.setFs_setPath {P : DfsFd → Prop} {fs : ℕ} {path : Option Path}
    (h : Leaves cfg P rest { d with fs := some fs, size := 0#32, pos := 0#32, path := path }) :
    Leaves cfg P (.setFs fs :: .setPath path :: rest) d := by
  intro fd t
  obtain ⟨d', hd', hrun⟩ := h fd t
  exact ⟨d', hd', by simp [runScript, exec, hrun]⟩

theorem Leaves.setData {P : DfsFd → Prop} {data : ℕ} {size pos : Word}
    (h : Leaves cfg P rest { d with data := data, size := size, pos := pos }) :
    Leaves cfg P (.setData data size pos :: rest) d := by
  intro fd t
  obtain ⟨d', hd', hrun⟩ := h fd t
  exact ⟨d', hd', by simp [runScript, exec, hrun]⟩

theorem Leaves.seek {P : DfsFd → Prop} {size pos : Word}
    (h : Leaves cfg P rest { d with size := size, pos := pos }) :
    Leaves cfg P (.seek size pos :: rest) d := by
  intro fd t
  obtain ⟨d', hd', hrun⟩ := h fd t
  exact ⟨d', hd', by simp [runScript, exec, hrun]⟩

theorem returns_opened {c : Contents} {size pos : Word} (hcount : d.refCount = 2)
    (hmagic : d.magic = DFS_FD_MAGIC) :
    Returns cfg [.setFs c.fs, .setPath c.path, .setData c.data size pos, .put, .ret c] d := by
  intro fd t
  have hopened : DfsFd.Opened
      { d with
        refCount := 1, fs := some c.fs, path := c.path, data := c.data, size := size, pos := pos } :=
    ⟨rfl, hmagic, some_ne_none _⟩
  exact ⟨_, hopened, by simp [runScript, exec, DfsFd.put, hcount]⟩

theorem Call.run_of (hrun : runScript cfg call.script (call.fd.getD 0) s.table = some ([], t)) :
    call.run cfg s = some
      { table := t
        opened :=
          if call.closes then s.opened.filter fun fd => call.fd ≠ some fd else s.opened } := by
  rw [run, hrun]
  rfl

theorem Tidy.run_new_leaves (h : Tidy cfg s) (hscript : call.script = .new :: .getNew :: rest)
    (hcloses : call.closes = false)
    (hleaves : ∀ d : DfsFd, d.refCount = 2 → d.magic = DFS_FD_MAGIC →
      Leaves cfg DfsFd.Closed rest d) : ∃ s', call.run cfg s = some s' ∧ Tidy cfg s' := by
  cases hnew : fdNew cfg s.table with
  | none =>
    have hrun : runScript cfg call.script (call.fd.getD 0) s.table = some ([], s.table) := by
      rw [hscript, runScript_new_none hnew]
    refine ⟨_, run_of hrun, ?_⟩
    rw [hcloses]
    exact h
  | some next =>
    obtain ⟨hrange, hclosed, -⟩ := fdNew_some h hnew
    obtain ⟨d, hd, hrest⟩ := hleaves (s.table next.1).taken rfl rfl next.1 s.table
    have hrun : runScript cfg call.script (call.fd.getD 0) s.table =
        some ([], update s.table next.1 d) := by
      rw [hscript, runScript_new_some h hnew, hrest]
    refine ⟨_, run_of hrun, ?_⟩
    rw [hcloses]
    exact h.keepClosed hclosed hd

theorem Tidy.run_new_returns (h : Tidy cfg s) (hscript : call.script = .new :: .getNew :: rest)
    (hcloses : call.closes = false)
    (hreturns : ∀ d : DfsFd, d.refCount = 2 → d.magic = DFS_FD_MAGIC → Returns cfg rest d) :
    ∃ s', call.run cfg s = some s' ∧ Tidy cfg s' := by
  cases hnew : fdNew cfg s.table with
  | none =>
    have hrun : runScript cfg call.script (call.fd.getD 0) s.table = some ([], s.table) := by
      rw [hscript, runScript_new_none hnew]
    refine ⟨_, run_of hrun, ?_⟩
    rw [hcloses]
    exact h
  | some next =>
    obtain ⟨hrange, -, -⟩ := fdNew_some h hnew
    obtain ⟨d, hd, hrest⟩ := hreturns (s.table next.1).taken rfl rfl next.1 s.table
    refine ⟨{ table := update s.table next.1 d, opened := next.1 :: s.opened }, ?_,
      h.addOpen hrange hd⟩
    rw [run, hscript, runScript_new_some h hnew, hrest, hcloses]
    rfl

theorem Tidy.run_get_keeps (h : Tidy cfg s) (hfd : call.fd = some fd)
    (hscript : call.script = .get :: rest) (hcloses : call.closes = false)
    (hleaves : ∀ d : DfsFd, d.refCount = 2 → d.magic = DFS_FD_MAGIC → d.fs ≠ none →
      Leaves cfg DfsFd.Opened rest d) : ∃ s', call.run cfg s = some s' ∧ Tidy cfg s' := by
  by_cases hopen : fd ∈ s.opened
  · obtain ⟨hcount, hmagic, hfs⟩ := h.opened fd hopen
    obtain ⟨d, hd, hrest⟩ := hleaves { s.table fd with refCount := 2 } rfl hmagic hfs fd s.table
    have hrun : runScript cfg call.script (call.fd.getD 0) s.table =
        some ([], update s.table fd d) := by
      rw [hscript, hfd, getD_some, runScript_get_open h hopen, hrest]
    refine ⟨_, run_of hrun, ?_⟩
    rw [hcloses]
    exact h.keep hopen hd
  · have hrun : runScript cfg call.script (call.fd.getD 0) s.table = some ([], s.table) := by
      rw [hscript, hfd, getD_some, runScript_get_closed h hopen]
    refine ⟨_, run_of hrun, ?_⟩
    rw [hcloses]
    exact h

theorem Tidy.run_get_closes (h : Tidy cfg s) (hfd : call.fd = some fd)
    (hscript : call.script = .get :: rest) (hcloses : call.closes = true)
    (hleaves : ∀ d : DfsFd, d.refCount = 2 → d.fs ≠ none → Leaves cfg DfsFd.Closed rest d) :
    ∃ s', call.run cfg s = some s' ∧ Tidy cfg s' := by
  have hopened : s.opened.filter (fun other => call.fd ≠ some other) =
      s.opened.filter (· ≠ fd) := by
    apply filter_congr
    intro other _
    rw [hfd]
    simp [eq_comm]
  by_cases hopen : fd ∈ s.opened
  · obtain ⟨-, -, hfs⟩ := h.opened fd hopen
    obtain ⟨d, hd, hrest⟩ := hleaves { s.table fd with refCount := 2 } rfl hfs fd s.table
    have hrun : runScript cfg call.script (call.fd.getD 0) s.table =
        some ([], update s.table fd d) := by
      rw [hscript, hfd, getD_some, runScript_get_open h hopen, hrest]
    refine ⟨_, run_of hrun, ?_⟩
    rw [hcloses, if_pos rfl, hopened]
    exact h.dropOpen fd hd
  · have hrun : runScript cfg call.script (call.fd.getD 0) s.table = some ([], s.table) := by
      rw [hscript, hfd, getD_some, runScript_get_closed h hopen]
    have hsame : s.opened.filter (· ≠ fd) = s.opened :=
      filter_eq_self.mpr fun other hmem => by
        have hne : other ≠ fd := fun hsame => hopen (hsame ▸ hmem)
        simpa using hne
    refine ⟨_, run_of hrun, ?_⟩
    rw [hcloses, if_pos rfl, hopened, hsame]
    exact h

theorem leaves_actions_put_put {opening : Opening} (hcontents : opening.contents = none)
    (hcount : d.refCount = 2) : Leaves cfg DfsFd.Closed (opening.actions ++ [.put, .put]) d := by
  cases opening with
  | noPath | noFilesystem => exact leaves_put_put hcount
  | noOperation fs path | failed fs path => exact Leaves.setFs_setPath leaves_clear_put_put
  | opened c size pos => cases hcontents

theorem leaves_close_put_put {result : ℤ} (hcount : d.refCount = 2) (hfs : d.fs ≠ none) :
    Leaves cfg DfsFd.Closed (dfsFileClose result ++ [.put, .put]) d := by
  unfold dfsFileClose
  by_cases hresult : result < 0
  · rw [if_pos hresult]
    exact (leaves_put_put hcount).callFs hfs
  · rw [if_neg hresult]
    exact leaves_clear_put_put.callFs hfs

theorem Tidy.run_failed_open {opening : Opening} (h : Tidy cfg s)
    (hscript : call.script = .new :: .getNew :: (opening.actions ++ [.put, .put]))
    (hcloses : call.closes = false) (hcontents : opening.contents = none) :
    ∃ s', call.run cfg s = some s' ∧ Tidy cfg s' :=
  h.run_new_leaves hscript hcloses fun _ hcount _ => leaves_actions_put_put hcontents hcount

theorem Call.run_tidy (h : Tidy cfg s) (hback : call.PutsBack cfg s.table) :
    ∃ s', call.run cfg s = some s' ∧ Tidy cfg s' := by
  cases call with
  | openFile opening =>
    cases opening with
    | opened c size pos =>
      exact h.run_new_returns rfl rfl fun d hcount hmagic => returns_opened hcount hmagic
    | noPath | noFilesystem | noOperation fs path | failed fs path =>
      exact h.run_failed_open rfl rfl rfl
  | closeFile fd result =>
    by_cases hresult : result < 0
    · have hscript : (closeFile fd result).script = [.get, .callFs, .put] := by
        simp [script, dfsFileClose, hresult]
      have hcloses : (closeFile fd result).closes = false := by
        simp [closes, hresult]
      exact h.run_get_keeps rfl hscript hcloses fun d hcount hmagic hfs =>
        (leaves_put hcount hmagic hfs).callFs hfs
    · have hscript : (closeFile fd result).script = [.get, .callFs, .clear, .put, .put] := by
        simp [script, dfsFileClose, hresult]
      have hcloses : (closeFile fd result).closes = true := by
        simpa [closes] using hresult
      exact h.run_get_closes rfl hscript hcloses fun d hcount hfs =>
        leaves_clear_put_put.callFs hfs
  | access fd size pos =>
    refine h.run_get_keeps rfl rfl rfl fun d hcount hmagic hfs => ?_
    have hput : Leaves cfg DfsFd.Opened [.put] { d with size := size, pos := pos } :=
      leaves_put hcount hmagic hfs
    exact hput.seek.callFs hfs
  | fstat fd =>
    exact h.run_get_keeps rfl rfl rfl fun d hcount hmagic hfs => leaves_put hcount hmagic hfs
  | lseekInvalid fd =>
    have hrun : runScript cfg (lseekInvalid fd).script fd s.table = some ([], s.table) := by
      have hget : fdGet cfg fd s.table = none := isNone_iff_eq_none.mp hback
      simp [script, runScript, exec, hget]
    exact ⟨s, run_of hrun, h⟩
  | mkdir opening result =>
    obtain hnone | hopening := hback
    · have hrun : runScript cfg (mkdir opening result).script 0 s.table =
          some ([], s.table) := runScript_new_none (isNone_iff_eq_none.mp hnone)
      exact ⟨s, run_of hrun, h⟩
    · cases opening with
      | noPath | noFilesystem => exact hopening.elim
      | noOperation fs path | failed fs path =>
        exact h.run_new_leaves rfl rfl fun d _ _ => leaves_clear_put.setFs_setPath
      | opened c size pos =>
        have hclose : dfsFileClose result = [.callFs, .clear] := if_neg (not_lt.mpr hopening)
        have hscript : (mkdir (.opened c size pos) result).script =
            [.new, .getNew, .setFs c.fs, .setPath c.path, .setData c.data size pos, .callFs,
              .clear, .put] := by
          simp [script, Opening.actions, Opening.contents, hclose]
        exact h.run_new_leaves hscript rfl fun d _ _ =>
          (leaves_clear_put.callFs (some_ne_none _)).setData.setFs_setPath
  | opendir opening memory result =>
    cases opening with
    | opened c size pos =>
      cases memory with
      | true =>
        exact h.run_new_returns rfl rfl fun d hcount hmagic => returns_opened hcount hmagic
      | false =>
        refine h.run_new_leaves rfl rfl fun d hcount _ => ?_
        apply Leaves.setFs_setPath
        apply Leaves.setData
        exact leaves_close_put_put hcount (some_ne_none c.fs)
    | noPath | noFilesystem | noOperation fs path | failed fs path =>
      exact h.run_failed_open rfl rfl rfl
  | closedir fd result =>
    exact h.run_get_closes rfl rfl rfl fun d hcount hfs => leaves_close_put_put hcount hfs

theorem State.run_tidy (requests : List Request) : ∀ s, Tidy cfg s → RunPutsBack cfg s requests →
      ∃ s', s.run cfg requests = some s' ∧ Tidy cfg s' := by
  induction requests with
  | nil =>
    intro s h _
    exact ⟨s, rfl, h⟩
  | cons request requests ih =>
    intro s h hback
    obtain ⟨s', hstep, htidy⟩ := Call.run_tidy h hback.1
    obtain ⟨s'', hrun, htidy⟩ := ih s' htidy (hback.2 s' hstep)
    refine ⟨s'', ?_, htidy⟩
    rw [State.run, foldlM_cons, State.step, hstep]
    exact hrun

end Steps

/-- No call leaks a descriptor, as long as no `lseek` on an open descriptor is refused, and no
`mkdir` with a descriptor finds no file system or fails to close. -/
theorem no_leaks_of_runPutsBack (cfg : Config) (requests : List Request)
    (hback : RunPutsBack cfg init requests) :
    ∃ s, init.run cfg requests = some s ∧ Balanced cfg s := by
  obtain ⟨s, hrun, htidy⟩ := State.run_tidy requests init tidy_init hback
  exact ⟨s, hrun, htidy.balanced⟩

theorem no_leaks_of_open_close : ∃ s, init.run ⟨3, 4⟩
        [.call (.openFile (.opened ⟨1, none, 7⟩ 100 0)), .lseek 3 10 1 100 10,
          .call (.openFile (.failed 1 none)), .call (.closeFile 3 0)] = some s ∧
      Balanced ⟨3, 4⟩ s :=
  no_leaks_of_runPutsBack ⟨3, 4⟩
    [.call (.openFile (.opened ⟨1, none, 7⟩ 100 0)), .lseek 3 10 1 100 10,
      .call (.openFile (.failed 1 none)), .call (.closeFile 3 0)] (by decide)

/-- `lseek` with an unknown `whence` keeps its reference. -/
theorem leak_of_lseek : ¬ ∀ (cfg : Config) (requests : List Request),
      ∃ s, init.run cfg requests = some s ∧ Balanced cfg s := by
  intro h
  obtain ⟨s, hrun, hbalanced⟩ := h ⟨3, 4⟩
    [.call (.openFile (.opened ⟨1, none, 7⟩ 100 0)), .lseek 3 10 3 100 10]
  have hstate : (init.run ⟨3, 4⟩ [.call (.openFile (.opened ⟨1, none, 7⟩ 100 0)),
      .lseek 3 10 3 100 10]).map (fun s => (s.opened, (s.table 3).refCount)) = some ([3], 2) := by
    decide
  rw [hrun, map_some, some.injEq, Prod.mk.injEq] at hstate
  have hcount := hbalanced.counted 3 (by rw [hstate.1]; exact mem_singleton.mpr rfl)
  rw [hstate.2] at hcount
  cases hcount

end RtThread.Dfs
