import RtThread.ByteMemory
import RtThread.GuardedRun

/-!
# The table of log sessions

`log_trace.c` keeps the registered sessions in ascending order of their ids and
looks one up by a binary search, behind a cache of one session.  The id 0 of the
default session stands at the front of the table, and the search never comes to
the front of a table with more than one entry.
-/

namespace RtThread.LogTrace

open List Option

def RT_EOK : ℤ := 0
def RT_ERROR : ℤ := 1
def RT_EFULL : ℤ := 3

/-- The sessions there are, each with `id.num`; the name of `_def_session` is empty. -/
structure Config (κ : Type) where
  num : κ → ℕ
  defSession : κ
  num_defSession : num defSession = 0
  idSize : ℕ
  maxSession : ℕ

structure Table (κ : Type) where
  sessions : List κ
  cache : κ

variable {κ : Type}

def Table.start (c : Config κ) : Table κ := ⟨[c.defSession], c.defSession⟩

/-- `none` is a failed assertion or a loop that does not end. -/
def searchLoop (c : Config κ) (sessions : List κ) (num : ℕ) : ℕ → ℕ → ℕ → Option (Option κ)
  | 0, _, _ => none
  | fuel + 1, first, last =>
    let i := (first + last) / 2
    match sessions[i]? with
    | none => none
    | some session =>
      if c.num session = num then some (some session)
      else if num < c.num session then
        if first + 1 ≠ i then searchLoop c sessions num fuel first i else some none
      else if i + 1 ≠ last then searchLoop c sessions num fuel i last
      else some none

def lgLookupSession (c : Config κ) (t : Table κ) (num : ℕ) : Option (Option κ × Table κ) :=
  if c.num t.cache = num then some (some t.cache, t)
  else
    (searchLoop c t.sessions num (t.sessions.length + 1) 0 t.sessions.length).map fun found =>
      (found, { t with cache := found.getD t.cache })

/-- The insertion loop; `none` is an id that is there already. -/
def insertSession (c : Config κ) (session : κ) : List κ → Option (List κ)
  | [] => some [session]
  | other :: rest =>
    if c.num session < c.num other then some (session :: other :: rest)
    else if c.num other = c.num session then none
    else (insertSession c session rest).map (other :: ·)

def logTraceRegisterSession (c : Config κ) (t : Table κ) (session : Option κ) : ℤ × Table κ :=
  if t.sessions.length = c.maxSession then (-RT_EFULL, t)
  else
    match session with
    | none => (RT_EOK, t)
    | some session =>
      match insertSession c session t.sessions with
      | none => (-RT_ERROR, t)
      | some sessions => (RT_EOK, { t with sessions := sessions })

def logTraceSessionFind (c : Config κ) (t : Table κ) (memory : Memory) (name : ℕ) :
    Option (Option κ × Table κ) :=
  lgLookupSession c t (memory.load name c.idSize)

structure State (κ : Type) where
  table : Table κ
  registered : List κ

inductive Action (κ : Type) where
  | register (session : Option κ)
  | lookup (num : ℕ)

def logSystem (c : Config κ) : TransitionSystem (State κ) (Action κ) where
  init s := s = ⟨.start c, [c.defSession]⟩
  step
    | s, .register session, s' =>
      s'.table = (logTraceRegisterSession c s.table session).2 ∧ s'.registered = s.registered ++
          if (logTraceRegisterSession c s.table session).1 = RT_EOK then session.toList else []
    | s, .lookup num, s' =>
      (lgLookupSession c s.table num).map Prod.snd = some s'.table ∧ s'.registered = s.registered

/-- The table holds what was registered, sorted, with the default session in front. -/
structure Inv (c : Config κ) (s : State κ) : Prop where
  sorted : s.table.sessions.Pairwise fun a b => c.num a < c.num b
  perm : s.table.sessions.Perm s.registered
  front : ∃ rest, s.table.sessions = c.defSession :: rest
  cached : s.table.cache ∈ s.table.sessions

variable {c : Config κ} {s s' : State κ} {sessions sessions' : List κ} {session : κ} {num : ℕ}

theorem insertSession_perm (hinsert : insertSession c session sessions = some sessions') :
    sessions'.Perm (session :: sessions) := by
  induction sessions generalizing sessions' with
  | nil =>
    rw [← some.inj hinsert]
  | cons other rest ih =>
    rw [insertSession] at hinsert
    split_ifs at hinsert
    · rw [← some.inj hinsert]
    · rcases map_eq_some_iff.mp hinsert with ⟨rest', hrest, hsessions⟩
      rw [← hsessions]
      exact ((ih hrest).cons other).trans (.swap session other rest)

theorem insertSession_sorted (hsorted : sessions.Pairwise fun a b => c.num a < c.num b)
    (hinsert : insertSession c session sessions = some sessions') :
    sessions'.Pairwise fun a b => c.num a < c.num b := by
  induction sessions generalizing sessions' with
  | nil =>
    rw [← some.inj hinsert]
    exact pairwise_singleton _ _
  | cons other rest ih =>
    rcases pairwise_cons.mp hsorted with ⟨habove, hrest⟩
    rw [insertSession] at hinsert
    split_ifs at hinsert with hlow hsame
    · rw [← some.inj hinsert]
      refine pairwise_cons.mpr ⟨fun b hb => ?_, hsorted⟩
      rcases mem_cons.mp hb with heq | hmem
      · exact heq ▸ hlow
      · exact hlow.trans (habove b hmem)
    · rcases map_eq_some_iff.mp hinsert with ⟨rest', hrest', hsessions⟩
      rw [← hsessions]
      refine pairwise_cons.mpr ⟨fun b hb => ?_, ih hrest hrest'⟩
      rcases mem_cons.mp ((insertSession_perm hrest').mem_iff.mp hb) with heq | hmem
      · rw [heq]
        lia
      · exact habove b hmem

theorem insertSession_front {rest : List κ}
    (hinsert : insertSession c session (c.defSession :: rest) = some sessions') :
    ∃ rest', sessions' = c.defSession :: rest' := by
  rw [insertSession, c.num_defSession, if_neg (Nat.not_lt_zero _)] at hinsert
  split_ifs at hinsert
  rcases map_eq_some_iff.mp hinsert with ⟨rest', -, hsessions⟩
  exact ⟨rest', hsessions.symm⟩

theorem num_lt_of_getElem?
    (hsorted : sessions.Pairwise fun a b => c.num a < c.num b) {i j : ℕ} {a b : κ}
    (hij : i < j) (ha : sessions[i]? = some a) (hb : sessions[j]? = some b) :
    c.num a < c.num b := by
  rcases List.getElem?_eq_some_iff.mp ha with ⟨hi, ha⟩
  rcases List.getElem?_eq_some_iff.mp hb with ⟨hj, hb⟩
  rw [← ha, ← hb]
  exact pairwise_iff_getElem.mp hsorted i j hi hj hij

theorem eq_of_num_eq (hsorted : sessions.Pairwise fun a b => c.num a < c.num b) {i j : ℕ} {a b : κ}
    (ha : sessions[i]? = some a) (hb : sessions[j]? = some b) (hnum : c.num a = c.num b) :
    a = b := by
  rcases lt_trichotomy i j with hij | hij | hij
  · exact absurd hnum (num_lt_of_getElem? hsorted hij ha hb).ne
  · rw [hij, hb] at ha
    exact (some.inj ha).symm
  · exact absurd hnum (num_lt_of_getElem? hsorted hij hb ha).ne'

def Between (c : Config κ) (sessions : List κ) (num first last : ℕ) (a : κ) : Prop :=
  c.num a = num ∧ ∃ j, first < j ∧ j < last ∧ sessions[j]? = some a

theorem between_below
    (hsorted : sessions.Pairwise fun a b => c.num a < c.num b) {first last i : ℕ} {middle a : κ}
    (hi : sessions[i]? = some middle) (hhigh : i ≤ last) (habove : num < c.num middle) :
    Between c sessions num first last a ↔ Between c sessions num first i a := by
  constructor
  · rintro ⟨hnum, j, hfirst, -, hj⟩
    refine ⟨hnum, j, hfirst, not_le.mp fun hij => ?_, hj⟩
    rcases hij.eq_or_lt with heq | hlt
    · rw [← heq, hi] at hj
      rw [some.inj hj] at habove
      lia
    · have hlater := num_lt_of_getElem? hsorted hlt hi hj
      lia
  · rintro ⟨hnum, j, hfirst, hji, hj⟩
    exact ⟨hnum, j, hfirst, hji.trans_le hhigh, hj⟩

theorem between_above
    (hsorted : sessions.Pairwise fun a b => c.num a < c.num b) {first last i : ℕ} {middle a : κ}
    (hi : sessions[i]? = some middle) (hlow : first ≤ i) (hbelow : c.num middle < num) :
    Between c sessions num first last a ↔ Between c sessions num i last a := by
  constructor
  · rintro ⟨hnum, j, -, hlast, hj⟩
    refine ⟨hnum, j, not_le.mp fun hji => ?_, hlast, hj⟩
    rcases hji.eq_or_lt with heq | hlt
    · rw [heq, hi] at hj
      rw [some.inj hj] at hbelow
      lia
    · have hearlier := num_lt_of_getElem? hsorted hlt hj hi
      lia
  · rintro ⟨hnum, j, hij, hlast, hj⟩
    exact ⟨hnum, j, hlow.trans_lt hij, hlast, hj⟩

theorem not_between_succ {first : ℕ} {a : κ} : ¬Between c sessions num first (first + 1) a := by
  rintro ⟨-, j, hfirst, hlast, -⟩
  lia

/-- The bisection narrows in on the number. -/
theorem searchLoop_spec
    (hsorted : sessions.Pairwise fun a b => c.num a < c.num b) {fuel first last : ℕ}
    (hwide : first + 2 ≤ last) (hlast : last ≤ sessions.length) (hfuel : last ≤ first + fuel) :
    ∃ found, searchLoop c sessions num fuel first last = some found ∧
      ∀ a, found = some a ↔ Between c sessions num first last a := by
  induction fuel generalizing first last with
  | zero => omega
  | succ fuel ih =>
    have hlow : first < (first + last) / 2 := by omega
    have hhigh : (first + last) / 2 < last := by omega
    rw [searchLoop]
    generalize (first + last) / 2 = i at hlow hhigh
    rcases List.getElem?_eq_some_iff.mpr ⟨hhigh.trans_le hlast, rfl⟩ with hi
    generalize sessions[i] = middle at hi
    simp only [hi]
    split_ifs with hsame habove hmore hmore
    · refine ⟨some middle, rfl, fun a => ⟨fun ha => ?_, fun ⟨hnum, j, _, _, hj⟩ => ?_⟩⟩
      · rw [← some.inj ha]
        exact ⟨hsame, i, hlow, hhigh, hi⟩
      · rw [eq_of_num_eq hsorted hi hj (hsame.trans hnum.symm)]
    · simp only [between_below hsorted hi hhigh.le habove]
      exact ih (by omega) (by omega) (by omega)
    · simp only [between_below hsorted hi hhigh.le habove]
      rw [← not_not.mp hmore]
      exact ⟨none, rfl, fun a => iff_of_false (by simp) not_between_succ⟩
    · have hbelow : c.num middle < num := by omega
      simp only [between_above hsorted hi hlow.le hbelow]
      exact ih (by omega) hlast (by omega)
    · have hbelow : c.num middle < num := by omega
      simp only [between_above hsorted hi hlow.le hbelow]
      rw [← not_not.mp hmore]
      exact ⟨none, rfl, fun a => iff_of_false (by simp) not_between_succ⟩

/-- The session with this identifier is found if there is one. -/
def Answers (c : Config κ) (registered : List κ) (num : ℕ)
    (answer : Option (Option κ × Table κ)) : Prop :=
  ∃ found t, answer = some (found, t) ∧ ∀ a, found = some a ↔ a ∈ registered ∧ c.num a = num

theorem Inv.eq_of_mem (hinv : Inv c s) {a b : κ} (ha : a ∈ s.table.sessions)
    (hb : b ∈ s.table.sessions) (hnum : c.num a = c.num b) : a = b := by
  rcases getElem?_of_mem ha with ⟨i, hi⟩
  rcases getElem?_of_mem hb with ⟨j, hj⟩
  exact eq_of_num_eq hinv.sorted hi hj hnum

theorem Inv.searchLoop_found (hinv : Inv c s) (num : ℕ) (hcache : c.num s.table.cache ≠ num) :
    ∃ found, searchLoop c s.table.sessions num (s.table.sessions.length + 1) 0
        s.table.sessions.length = some found ∧
      ∀ a, found = some a ↔ a ∈ s.table.sessions ∧ c.num a = num ∧ num ≠ 0 := by
  rcases hinv.front with ⟨rest, hfront⟩
  have hdef : s.table.sessions[0]? = some c.defSession := by
    rw [hfront]
    rfl
  cases hrest : rest with
  | nil =>
    -- The cache is the default session, so the id differs from 0.
    have hcached := hinv.cached
    rw [hfront, hrest, mem_singleton] at hcached
    rw [hcached, c.num_defSession] at hcache
    refine ⟨none, ?_, fun a => iff_of_false (by simp) ?_⟩
    · rw [hfront, hrest]
      simp [searchLoop, c.num_defSession, hcache]
    · rintro ⟨ha, hnum, -⟩
      rw [hfront, hrest, mem_singleton] at ha
      rw [ha, c.num_defSession] at hnum
      exact hcache hnum
  | cons b rest' =>
    have hwide : 0 + 2 ≤ s.table.sessions.length := by
      rw [hfront, hrest]
      simp
    have hfuel : s.table.sessions.length ≤ 0 + (s.table.sessions.length + 1) := by omega
    rcases @searchLoop_spec κ c _ num hinv.sorted _ _ _ hwide le_rfl hfuel
      with ⟨found, hfound, hiff⟩
    refine ⟨found, hfound, fun a => (hiff a).trans ⟨?_, ?_⟩⟩
    · rintro ⟨hnum, j, hfirst, -, hj⟩
      have hpos := num_lt_of_getElem? hinv.sorted hfirst hdef hj
      exact ⟨mem_of_getElem? hj, hnum, by lia⟩
    · rintro ⟨ha, hnum, hpos⟩
      rcases getElem?_of_mem ha with ⟨j, hj⟩
      refine ⟨hnum, j, Nat.pos_of_ne_zero fun hzero => ?_, (List.getElem?_eq_some_iff.mp hj).1, hj⟩
      rw [hzero, hdef] at hj
      rw [← some.inj hj, c.num_defSession] at hnum
      exact hpos hnum.symm

theorem Inv.lookup_cases (hinv : Inv c s) (num : ℕ) : ∃ found, lgLookupSession c s.table num =
        some (found, { s.table with cache := found.getD s.table.cache }) ∧
      ∀ a, found = some a ↔
        a ∈ s.table.sessions ∧ c.num a = num ∧ (num = 0 → c.num s.table.cache = 0) := by
  by_cases hcache : c.num s.table.cache = num
  · refine ⟨some s.table.cache, if_pos hcache, fun a => ⟨fun ha => ?_, fun ⟨ha, hnum, _⟩ => ?_⟩⟩
    · rw [← some.inj ha]
      exact ⟨hinv.cached, hcache, fun hzero => hcache.trans hzero⟩
    · rw [hinv.eq_of_mem hinv.cached ha (hcache.trans hnum.symm)]
  · rcases hinv.searchLoop_found num hcache with ⟨found, hfound, hiff⟩
    have hzero : num ≠ 0 ↔ (num = 0 → c.num s.table.cache = 0) :=
      ⟨fun hpos h => absurd h hpos, fun h hz => hcache ((h hz).trans hz.symm)⟩
    refine ⟨found, ?_, fun a => by rw [hiff a, hzero]⟩
    rw [lgLookupSession, if_neg hcache, hfound]
    rfl

theorem register_cases (c : Config κ) (t : Table κ) (session : Option κ) :
    (∃ err, logTraceRegisterSession c t session = (err, t) ∧ (err = RT_EOK → session = none)) ∨
      ∃ a sessions', session = some a ∧ insertSession c a t.sessions = some sessions' ∧
        logTraceRegisterSession c t session = (RT_EOK, { t with sessions := sessions' }) := by
  unfold logTraceRegisterSession
  split_ifs
  · exact .inl ⟨_, rfl, nofun⟩
  · cases session with
    | none => exact .inl ⟨_, rfl, fun _ => rfl⟩
    | some a =>
      cases hinsert : insertSession c a t.sessions with
      | none => exact .inl ⟨-RT_ERROR, by simp only [hinsert], nofun⟩
      | some sessions' => exact .inr ⟨a, sessions', rfl, hinsert, by simp only [hinsert]⟩

/-- A session is registered in its place, and the cache stays in the table. -/
theorem Inv.step {action : Action κ} (hinv : Inv c s) (hstep : (logSystem c).step s action s') :
    Inv c s' := by
  cases action with
  | register session =>
    rcases hstep with ⟨htable, hregistered⟩
    rcases register_cases c s.table session with
      ⟨err, hresult, herr⟩ | ⟨a, sessions', hsome, hinsert, hresult⟩
    · have hnone : (if err = RT_EOK then session.toList else []) = [] := by
        split_ifs with hok
        · rw [herr hok]
          rfl
        · rfl
      rw [hresult] at htable hregistered
      rw [hnone, append_nil] at hregistered
      constructor
      · rw [htable]
        exact hinv.sorted
      · rw [htable, hregistered]
        exact hinv.perm
      · rw [htable]
        exact hinv.front
      · rw [htable]
        exact hinv.cached
    · rw [hresult] at htable hregistered
      rw [hsome, if_pos rfl] at hregistered
      have hperm := insertSession_perm hinsert
      rcases hinv.front with ⟨rest, hfront⟩
      constructor
      · rw [htable]
        exact insertSession_sorted hinv.sorted hinsert
      · rw [htable, hregistered]
        exact (hperm.trans (hinv.perm.cons a)).trans
          (perm_append_singleton a s.registered).symm
      · rw [htable]
        exact insertSession_front (hfront ▸ hinsert)
      · rw [htable]
        exact hperm.mem_iff.mpr (mem_cons_of_mem _ hinv.cached)
  | lookup num =>
    rcases hinv.lookup_cases num with ⟨found, hlookup, hiff⟩
    rcases hstep with ⟨htable, hregistered⟩
    rw [hlookup] at htable
    have htable' := (some.inj htable).symm
    constructor
    · rw [htable']
      exact hinv.sorted
    · rw [htable', hregistered]
      exact hinv.perm
    · rw [htable']
      exact hinv.front
    · rw [htable']
      cases found with
      | none => exact hinv.cached
      | some a => exact ((hiff a).mp rfl).1

theorem inv_of_reachable (hreach : (logSystem c).Reachable (fun _ _ => True) s) : Inv c s := by
  apply hreach.invariant (P := Inv c)
  · rintro s rfl
    exact ⟨pairwise_singleton _ _, .refl _, ⟨[], rfl⟩, mem_singleton_self _⟩
  · exact fun s action s' hinv _ hstep => hinv.step hstep

/-- In every reachable state the table is strictly increasing and every lookup ends; it is wrong
exactly when it asks for the id 0 while another session is in the cache. -/
theorem lookup_answers_iff
    (c : Config κ) {s : State κ} (hreach : (logSystem c).Reachable (fun _ _ => True) s) :
    (s.table.sessions.Pairwise fun a b => c.num a < c.num b) ∧
      (∀ num, (lgLookupSession c s.table num).isSome ∧
        (Answers c s.registered num (lgLookupSession c s.table num) ↔
          (num = 0 → c.num s.table.cache = 0))) ∧
      ∀ memory name, logTraceSessionFind c s.table memory name =
        lgLookupSession c s.table (memory.load name c.idSize) := by
  have hinv := inv_of_reachable hreach
  refine ⟨hinv.sorted, fun num => ?_, fun _ _ => rfl⟩
  rcases hinv.lookup_cases num with ⟨found, hlookup, hiff⟩
  rw [hlookup]
  refine ⟨rfl, fun hanswers hzero => ?_, fun hright => ⟨found, _, rfl, fun a => ?_⟩⟩
  · rcases hanswers with ⟨found', t, heq, hfound⟩
    rcases hinv.front with ⟨rest, hfront⟩
    have hmem : c.defSession ∈ s.table.sessions := by
      rw [hfront]
      exact mem_cons_self
    have hdef : found' = some c.defSession :=
      (hfound _).mpr ⟨hinv.perm.mem_iff.mp hmem, c.num_defSession.trans hzero.symm⟩
    have hsame : found = found' := (Prod.mk.inj (some.inj heq)).1
    exact ((hiff _).mp (hsame.trans hdef)).2.2 hzero
  · rw [hiff a, hinv.perm.mem_iff]
    exact ⟨fun ⟨ha, hnum, _⟩ => ⟨ha, hnum⟩, fun ⟨ha, hnum⟩ => ⟨ha, hnum, hright⟩⟩

def sampleConfig : Config ℕ := ⟨id, 0, rfl, 4, 16⟩

def sampleState : State ℕ := ⟨⟨[0, 5], 5⟩, [0, 5]⟩

theorem sampleState_reachable :
    (logSystem sampleConfig).Reachable (fun _ _ => True) sampleState := by
  have hregister : (logSystem sampleConfig).step ⟨.start sampleConfig, [0]⟩ (.register (some 5))
      ⟨⟨[0, 5], 0⟩, [0, 5]⟩ := ⟨rfl, rfl⟩
  have hlookup : (logSystem sampleConfig).step ⟨⟨[0, 5], 0⟩, [0, 5]⟩ (.lookup 5) sampleState :=
    ⟨rfl, rfl⟩
  exact .next (.next (.start rfl) trivial hregister) trivial hlookup

theorem lookup_answers_sample :
    (sampleState.table.sessions.Pairwise fun a b => sampleConfig.num a < sampleConfig.num b) ∧
      (∀ num, (lgLookupSession sampleConfig sampleState.table num).isSome ∧
        (Answers sampleConfig sampleState.registered num
            (lgLookupSession sampleConfig sampleState.table num) ↔
          (num = 0 → sampleConfig.num sampleState.table.cache = 0))) ∧
      ∀ memory name, logTraceSessionFind sampleConfig sampleState.table memory name =
        lgLookupSession sampleConfig sampleState.table (memory.load name 4) :=
  lookup_answers_iff sampleConfig sampleState_reachable

/-- Identifier zero is looked up after a session has been found. -/
theorem not_lookup_answers :
    ∃ s, (logSystem sampleConfig).Reachable (fun _ _ => True) s ∧
      ¬∀ num, Answers sampleConfig s.registered num (lgLookupSession sampleConfig s.table num) := by
  refine ⟨sampleState, sampleState_reachable, fun hall => ?_⟩
  rcases hall 0 with ⟨found, t, hlookup, hfound⟩
  have hmissed : (lgLookupSession sampleConfig sampleState.table 0).map Prod.fst = some none := by
    decide
  rw [hlookup, map_some, some.injEq] at hmissed
  have hdef := (hfound 0).mpr ⟨by decide, rfl⟩
  simp only at hmissed
  rw [hmissed] at hdef
  simp at hdef

end RtThread.LogTrace
