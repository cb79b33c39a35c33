import RtThread.DfsMounts

/-!
# Runs of mounts and unmounts

The table of mounted file systems keeps normal and different paths as long as
every file system that is registered has a spelling below the root and a
normal spelling that is not yet mounted.
-/

namespace RtThread.Dfs

open Option List Result

open SlashPath (ProperName render resolve Normalised)

inductive MountOrUnmount
  | mount (call : MountCall)
  | unmount (call : UnmountCall)

def Mounts.step (setting : Setting) (s : Mounts) (call : MountOrUnmount) : Option Mounts :=
  let result := match call with
    | .mount call => dfsMount setting call s
    | .unmount call => dfsUnmount setting call s
  match result with
  | .returned s _ => some s
  | .fault => none

def Mounts.run (setting : Setting) (calls : List MountOrUnmount) (s : Mounts) : Option Mounts :=
  calls.foldlM (Mounts.step setting) s

def Device.AsksDriver (init : ℤ) (d : Device) : Prop :=
  (d.activated = true ∨ init = 0) ∧ ¬ (d.standalone = true ∧ d.isOpen = true)

instance (init : ℤ) (d : Device) : Decidable (d.AsksDriver init) :=
  inferInstanceAs (Decidable (_ ∧ _))

/-- What a mount has to meet when it passes its checks: the spelling does not leave the root, its
normal spelling is not mounted, and a driver that is asked to open the device does so. -/
def MountCall.Clean (setting : Setting) (s : Mounts) (call : MountCall) : Prop :=
  ∀ found ∈ call.register setting s, ∀ r ∈ found,
    ((absolute setting.workingDirectory call.path).bind resolve).isSome = true ∧
      (∀ e ∈ s.table, e.ops ≠ none → e.path ≠ r.entry.path) ∧
      ∀ dev ∈ r.entry.dev, (s.devices dev).AsksDriver call.deviceInit → call.deviceOpen = 0

instance decidableMountCallClean (setting : Setting) (s : Mounts) (call : MountCall) :
    Decidable (call.Clean setting s) :=
  inferInstanceAs (Decidable (∀ found ∈ _, _))

def MountOrUnmount.Clean (setting : Setting) (s : Mounts) : MountOrUnmount → Prop
  | .mount call => call.Clean setting s
  | .unmount _ => True

instance decidableMountOrUnmountClean (setting : Setting) (s : Mounts) :
    (call : MountOrUnmount) → Decidable (call.Clean setting s)
  | .mount call => inferInstanceAs (Decidable (call.Clean setting s))
  | .unmount _ => isTrue trivial

def Mounts.RunClean (setting : Setting) : Mounts → List MountOrUnmount → Prop
  | _, [] => True
  | s, call :: calls =>
    call.Clean setting s ∧ ∀ s' ∈ s.step setting call, Mounts.RunClean setting s' calls

instance decidableMountsRunClean (setting : Setting) :
    ∀ (calls : List MountOrUnmount) (s : Mounts), Decidable (s.RunClean setting calls)
  | [], _ => isTrue trivial
  | _ :: calls, _ =>
    have : ∀ s', Decidable (Mounts.RunClean setting s' calls) :=
      decidableMountsRunClean setting calls
    inferInstanceAs (Decidable (_ ∧ _))

/-- The mount paths are normalised and no two are the same. -/
structure Mounts.Consistent (s : Mounts) : Prop where
  normalised : ∀ (i : ℕ) (e : Mounted), s.table[i]? = some e → e.ops ≠ none →
    ∃ path, e.path = some path ∧ Normalised path
  distinct : ∀ (i j : ℕ) (e f : Mounted), s.table[i]? = some e → s.table[j]? = some f → e.ops ≠ none →
    f.ops ≠ none → e.path = f.path → i = j

/-- A mount that fails leaves the table and the devices as they were. -/
def MountCall.Restores (setting : Setting) (s : Mounts) (call : MountCall) : Prop :=
  ∀ s', dfsMount setting call s = .returned s' (-1) →
    s'.table = s.table ∧ ∀ dev, (s'.devices dev).refCount = (s.devices dev).refCount

/-- Every spelling of a mount path finds its entry. -/
def UnmountCall.Finds (setting : Setting) (s : Mounts) (call : UnmountCall) : Prop :=
  ∀ (src : Path) (st : List Path) (i : ℕ) (e : Mounted), absolute setting.workingDirectory call.specialfile = some src →
    resolve src = some st → call.memory = true → s.table[i]? = some e →
    e.path = some (render st) → dfsUnmount setting call s = call.finish s i

structure Mounts.Inv (s : Mounts) : Prop where
  consistent : s.Consistent
  free : ∀ (i : ℕ) (e : Mounted), s.table[i]? = some e → e.ops = none → e = .cleared

section Tables

variable {setting : Setting} {s s' : Mounts} {devices : ℕ → Device} {idx i j : ℕ} {e f : Mounted}
  {st : List Path} {call : MountCall} {r : Registration}

theorem getElem?_set_cases {table : List Mounted} {entry : Mounted}
    (hget : (table.set idx entry)[i]? = some e) :
    i = idx ∧ e = entry ∨ i ≠ idx ∧ table[i]? = some e := by
  by_cases hi : i = idx
  · left
    rw [hi, getElem?_set_self'] at hget
    obtain ⟨old, -, hentry⟩ := map_eq_some_iff.mp hget
    exact ⟨hi, hentry.symm⟩
  · right
    rw [getElem?_set_ne (Ne.symm hi)] at hget
    exact ⟨hi, hget⟩

theorem Mounts.Inv.clear (hinv : s.Inv) (idx : ℕ) (devices : ℕ → Device) :
    Mounts.Inv ⟨s.table.set idx .cleared, devices⟩ where
  consistent :=
    { normalised := by
        intro i e hget hused
        obtain ⟨-, rfl⟩ | ⟨-, hget⟩ := getElem?_set_cases hget
        · contradiction
        · exact hinv.consistent.normalised i e hget hused
      distinct := by
        intro i j e f he hf hused hused' hpath
        obtain ⟨-, rfl⟩ | ⟨-, he⟩ := getElem?_set_cases he
        · contradiction
        · obtain ⟨-, rfl⟩ | ⟨-, hf⟩ := getElem?_set_cases hf
          · contradiction
          · exact hinv.consistent.distinct i j e f he hf hused hused' hpath }
  free := by
    intro i e hget hfree
    obtain ⟨-, rfl⟩ | ⟨-, hget⟩ := getElem?_set_cases hget
    · rfl
    · exact hinv.free i e hget hfree

theorem Mounts.Inv.add (hinv : s.Inv) (hproper : ∀ name ∈ st, ProperName name)
    (hpath : f.path = some (render st)) (hops : f.ops ≠ none)
    (hfresh : ∀ e ∈ s.table, e.ops ≠ none → e.path ≠ f.path) (idx : ℕ) (devices : ℕ → Device) :
    Mounts.Inv ⟨s.table.set idx f, devices⟩ where
  consistent :=
    { normalised := by
        intro i e hget hused
        obtain ⟨-, rfl⟩ | ⟨-, hget⟩ := getElem?_set_cases hget
        · exact ⟨render st, hpath, st, hproper, rfl⟩
        · exact hinv.consistent.normalised i e hget hused
      distinct := by
        intro i j e g he hg hused hused' hsame
        obtain ⟨hi, hnew⟩ | ⟨-, hold⟩ := getElem?_set_cases he
        · obtain ⟨hj, -⟩ | ⟨-, hold⟩ := getElem?_set_cases hg
          · rw [hi, hj]
          · rw [hnew] at hsame
            exact absurd hsame.symm (hfresh g (mem_of_getElem? hold) hused')
        · obtain ⟨-, hnew⟩ | ⟨-, hold'⟩ := getElem?_set_cases hg
          · rw [hnew] at hsame
            exact absurd hsame (hfresh e (mem_of_getElem? hold) hused)
          · exact hinv.consistent.distinct i j e g hold hold' hused hused' hsame }
  free := by
    intro i e hget hfree
    obtain ⟨-, rfl⟩ | ⟨-, hget⟩ := getElem?_set_cases hget
    · contradiction
    · exact hinv.free i e hget hfree

theorem Mounts.inv_init (filesystemsMax : ℕ) (devices : ℕ → Device) :
    (Mounts.init filesystemsMax devices).Inv := by
  have hcleared : ∀ (i : ℕ) (e : Mounted), (Mounts.init filesystemsMax devices).table[i]? = some e →
      e = .cleared := by
    intro i e hget
    exact eq_of_mem_replicate (mem_of_getElem? hget)
  refine ⟨⟨fun i e hget hused => ?_, fun i j e f hget _ hused _ _ => ?_⟩, fun i e hget _ => ?_⟩
  · exact absurd (congrArg Mounted.ops (hcleared i e hget)) hused
  · exact absurd (congrArg Mounted.ops (hcleared i e hget)) hused
  · exact hcleared i e hget

theorem MountCall.register_spec (hreg : call.register setting s = some (some r)) :
    ∃ fullpath, dfsNormalizePath setting.workingDirectory call.memory call.path = some fullpath ∧
      r.entry.path = some fullpath ∧ r.entry.ops ≠ none ∧
      ∃ e, s.table[r.idx]? = some e ∧ e.ops = none := by
  unfold MountCall.register at hreg
  split at hreg
  · cases hreg
  · obtain ⟨found, -, hreg⟩ := map_eq_some_iff.mp hreg
    obtain ⟨ops, -, hreg⟩ := bind_eq_some_iff.mp hreg
    split at hreg
    · cases hreg
    · obtain ⟨fullpath, hnormal, hreg⟩ := bind_eq_some_iff.mp hreg
      split at hreg
      · cases hreg
      · split at hreg
        · cases hreg
        · obtain ⟨idx, hfind, rfl⟩ := map_eq_some_iff.mp hreg
          obtain ⟨hlt, hfree, -⟩ := findIdx?_eq_some_iff_getElem.mp hfind
          exact ⟨fullpath, hnormal, rfl, some_ne_none _, s.table[idx],
            getElem?_eq_getElem hlt, isNone_iff_eq_none.mp hfree⟩

theorem rtDeviceOpen_spec {start result result' : ℤ} {d d' : Device}
    (hasks : d.AsksDriver start → result = 0)
    (hopen : rtDeviceOpen start result d = some (d', result')) :
    result' = 0 ∧ d'.refCount = d.refCount + 1 ∧ d'.refCount ≠ 0 ∨
      result' ≠ 0 ∧ d'.refCount = d.refCount := by
  unfold rtDeviceOpen at hopen
  split at hopen
  · next hinit =>
      right
      obtain ⟨rfl, rfl⟩ := Prod.mk.inj (some.inj hopen)
      have hne : start ≠ 0 := by
        rw [Bool.and_eq_true, decide_eq_true_iff] at hinit
        exact hinit.2
      exact ⟨hne, rfl⟩
  · next hinit =>
      dsimp only at hopen
      split at hopen
      · right
        obtain ⟨rfl, rfl⟩ := Prod.mk.inj (some.inj hopen)
        exact ⟨by decide, rfl⟩
      · next hbusy =>
          left
          have hready : d.AsksDriver start := by
            rw [Bool.and_eq_true] at hbusy
            refine ⟨?_, hbusy⟩
            cases hactivated : d.activated with
            | true => exact .inl rfl
            | false =>
              right
              by_contra hne
              simp [hactivated, hne] at hinit
          have hzero := hasks hready
          split at hopen
          · cases hopen
          · next hcount =>
              rw [if_pos (.inl hzero)] at hopen
              obtain ⟨rfl, rfl⟩ := Prod.mk.inj (some.inj hopen)
              exact ⟨hzero, rfl, hcount⟩

theorem rtDeviceClose_refCount {close : ℤ} {d : Device} (hopen : d.refCount ≠ 0) :
    (rtDeviceClose close d).refCount = d.refCount - 1 := by
  unfold rtDeviceClose
  rw [if_neg hopen]
  split <;> rfl

theorem refCount_restored {devices : ℕ → Device} {dev : ℕ} {d : Device}
    (hd : d.refCount = (devices dev).refCount) (other : ℕ) :
    (Function.update devices dev d other).refCount = (devices other).refCount := by
  by_cases hother : other = dev
  · rw [hother, Function.update_self, hd]
  · rw [Function.update_of_ne hother]

theorem Mounts.Inv.restore (hinv : s.Inv) (hget : s.table[idx]? = some e) (hfree : e.ops = none)
    (entry : Mounted) : (s.table.set idx entry).set idx .cleared = s.table := by
  have hcleared : s.table[idx]? = some .cleared := by
    rw [hget, hinv.free idx e hget hfree]
  rw [set_set]
  apply ext_getElem?
  intro i
  by_cases hi : i = idx
  · rw [hi, getElem?_set_self', hcleared]
    rfl
  · rw [getElem?_set_ne (Ne.symm hi)]

theorem memory_of_dfsNormalizePath {workingDirectory : Option Path} {memory : Bool}
    {filename fullpath : Path}
    (hnormal : dfsNormalizePath workingDirectory memory filename = some fullpath) :
    memory = true := by
  obtain ⟨src, -, hsome⟩ := bind_eq_some_iff.mp hnormal
  by_contra hmemory
  rw [if_neg hmemory] at hsome
  cases hsome

theorem MountCall.Clean.spec (hclean : call.Clean setting s)
    (hreg : call.register setting s = some (some r)) :
    ∃ st, (∀ name ∈ st, ProperName name) ∧ r.entry.path = some (render st) ∧
      r.entry.ops ≠ none ∧ ∃ e, s.table[r.idx]? = some e ∧ e.ops = none := by
  obtain ⟨hspelling, -, -⟩ := hclean _ hreg r rfl
  obtain ⟨fullpath, hnormal, hpath, hops, hfree⟩ := MountCall.register_spec hreg
  obtain ⟨st, hst⟩ := isSome_iff_exists.mp hspelling
  obtain ⟨src, hsrc, hresolve⟩ := bind_eq_some_iff.mp hst
  obtain ⟨hrender, hproper⟩ := dfsNormalizePath_of_resolve hsrc hresolve
  rw [memory_of_dfsNormalizePath hnormal, hrender] at hnormal
  exact ⟨st, hproper, by rw [hpath, ← hnormal], hops, hfree⟩

structure MountSpec (s s' : Mounts) (result : ℤ) : Prop where
  inv : s'.Inv
  restored : result = -1 →
    s'.table = s.table ∧ ∀ dev, (s'.devices dev).refCount = (s.devices dev).refCount

theorem MountCall.finish_spec {result : ℤ} (hinv : s.Inv) (hclean : call.Clean setting s)
    (hreg : call.register setting s = some (some r))
    (hfinish : call.finish s r = .returned s' result) : MountSpec s s' result := by
  obtain ⟨-, hfresh, hasks⟩ := hclean _ hreg r rfl
  obtain ⟨st, hproper, hpath, hops, e, hget, hfree⟩ := hclean.spec hreg
  have hrestore := hinv.restore hget hfree r.entry
  have hadd : ∀ devices, Mounts.Inv ⟨s.table.set r.idx r.entry, devices⟩ :=
    hinv.add hproper hpath hops hfresh r.idx
  have hsame : ∀ devices, Mounts.Inv ⟨s.table, devices⟩ := fun _ =>
    ⟨⟨hinv.consistent.normalised, hinv.consistent.distinct⟩, hinv.free⟩
  have hzero : (0 : ℤ) ≠ -1 := by decide
  cases hdev : r.entry.dev with
  | none =>
    simp only [MountCall.finish, hdev] at hfinish
    split at hfinish
    · obtain ⟨rfl, rfl⟩ := returned.inj hfinish
      rw [hrestore]
      exact ⟨hsame _, fun _ => ⟨rfl, fun _ => rfl⟩⟩
    · obtain ⟨rfl, rfl⟩ := returned.inj hfinish
      exact ⟨hadd _, fun hfail => absurd hfail hzero⟩
  | some dev =>
    cases hopen : rtDeviceOpen call.deviceInit call.deviceOpen (s.devices dev) with
    | none =>
      simp only [MountCall.finish, hdev, hopen] at hfinish
      cases hfinish
    | some next =>
      obtain ⟨d, result'⟩ := next
      have hcount := rtDeviceOpen_spec (hasks dev hdev) hopen
      simp only [MountCall.finish, hdev, hopen] at hfinish
      split at hfinish
      · next hne =>
          obtain ⟨rfl, rfl⟩ := returned.inj hfinish
          obtain ⟨hok, -⟩ | ⟨-, hkept⟩ := hcount
          · contradiction
          · rw [hrestore]
            exact ⟨hsame _, fun _ => ⟨rfl, refCount_restored hkept⟩⟩
      · next hok =>
          obtain ⟨-, hcounted, hopened⟩ | ⟨hne, -⟩ := hcount
          · split at hfinish
            · obtain ⟨rfl, rfl⟩ := returned.inj hfinish
              have hclosed : (rtDeviceClose call.deviceClose d).refCount =
                  (s.devices dev).refCount := by
                rw [rtDeviceClose_refCount hopened, hcounted, BitVec.add_sub_cancel]
              rw [hrestore]
              exact ⟨hsame _, fun _ => ⟨rfl, refCount_restored hclosed⟩⟩
            · obtain ⟨rfl, rfl⟩ := returned.inj hfinish
              exact ⟨hadd _, fun hfail => absurd hfail hzero⟩
          · contradiction

/-- A mount takes a free entry or changes nothing. -/
theorem dfsMount_spec {result : ℤ} (hinv : s.Inv) (hclean : call.Clean setting s)
    (hmount : dfsMount setting call s = .returned s' result) : MountSpec s s' result := by
  unfold dfsMount at hmount
  split at hmount
  · cases hmount
  · obtain ⟨rfl, -⟩ := returned.inj hmount
    exact ⟨hinv, fun _ => ⟨rfl, fun _ => rfl⟩⟩
  · next r hreg => exact MountCall.finish_spec hinv hclean hreg hmount

theorem dfsUnmount_inv {call : UnmountCall} {result : ℤ} (hinv : s.Inv)
    (hunmount : dfsUnmount setting call s = .returned s' result) : s'.Inv := by
  unfold dfsUnmount at hunmount
  split at hunmount
  · obtain ⟨rfl, -⟩ := returned.inj hunmount
    exact hinv
  · split at hunmount
    · obtain ⟨rfl, -⟩ := returned.inj hunmount
      exact hinv
    · unfold UnmountCall.finish at hunmount
      split at hunmount
      · obtain ⟨rfl, -⟩ := returned.inj hunmount
        exact hinv
      · split at hunmount
        · cases hunmount
        · split at hunmount
          · obtain ⟨rfl, -⟩ := returned.inj hunmount
            exact hinv
          · obtain ⟨rfl, -⟩ := returned.inj hunmount
            exact hinv.clear _ _

theorem UnmountCall.finds {call : UnmountCall} (hinv : s.Inv) : call.Finds setting s := by
  intro src st i e hsrc hresolve hmemory hget hpath
  have hnormal := (dfsNormalizePath_of_resolve hsrc hresolve).1
  have hused : ∀ (j : ℕ) (f : Mounted), s.table[j]? = some f → f.path = some (render st) →
      f.ops ≠ none := by
    intro j f hf hpath hfree
    rw [hinv.free j f hf hfree] at hpath
    cases hpath
  obtain ⟨hi, hentry⟩ := List.getElem?_eq_some_iff.mp hget
  have hfind : (s.table.findIdx? fun entry => entry.path == some (render st)) = some i := by
    rw [findIdx?_eq_some_iff_getElem]
    refine ⟨hi, by rw [hentry, hpath]; exact beq_self_eq_true _, fun j hj hsame => ?_⟩
    have hj' : s.table[j]? = some s.table[j] := getElem?_eq_getElem _
    have hpath' : s.table[j].path = some (render st) := eq_of_beq hsame
    have heq := hinv.consistent.distinct j i _ e hj' hget (hused j _ hj' hpath')
      (hused i e hget hpath) (hpath'.trans hpath.symm)
    omega
  rw [dfsUnmount, hmemory, hnormal]
  dsimp only
  rw [hfind]

end Tables

section Runs

variable {setting : Setting} {s s' : Mounts}

theorem Mounts.step_inv {call : MountOrUnmount} (hinv : s.Inv) (hclean : call.Clean setting s)
    (hstep : s.step setting call = some s') : s'.Inv := by
  cases call with
  | mount call =>
    cases hresult : dfsMount setting call s with
    | fault =>
      simp only [Mounts.step, hresult] at hstep
      cases hstep
    | returned next result =>
      simp only [Mounts.step, hresult] at hstep
      rw [← some.inj hstep]
      exact (dfsMount_spec hinv hclean hresult).inv
  | unmount call =>
    cases hresult : dfsUnmount setting call s with
    | fault =>
      simp only [Mounts.step, hresult] at hstep
      cases hstep
    | returned next result =>
      simp only [Mounts.step, hresult] at hstep
      rw [← some.inj hstep]
      exact dfsUnmount_inv hinv hresult

theorem Mounts.run_inv (calls : List MountOrUnmount) :
    ∀ s : Mounts, s.Inv → s.RunClean setting calls → s.run setting calls = some s' → s'.Inv := by
  induction calls with
  | nil =>
    intro s hinv _ hrun
    rw [← some.inj hrun]
    exact hinv
  | cons call calls ih =>
    intro s hinv hclean hrun
    unfold Mounts.run at hrun
    rw [foldlM_cons] at hrun
    obtain ⟨next, hstep, hrun⟩ := bind_eq_some_iff.mp hrun
    exact ih next (Mounts.step_inv hinv hclean.1 hstep) (hclean.2 next hstep) hrun

end Runs

/-- In a run of clean calls the used entries have normal and different paths, a clean mount that
fails changes no entry and no open count, and an unmount finds the entry of any spelling. -/
theorem mounts_of_runClean (setting : Setting) (filesystemsMax : ℕ) (devices : ℕ → Device)
    (calls : List MountOrUnmount) (s : Mounts)
    (hclean : (Mounts.init filesystemsMax devices).RunClean setting calls)
    (hrun : (Mounts.init filesystemsMax devices).run setting calls = some s) :
    s.Consistent ∧ (∀ call : MountCall, call.Clean setting s → call.Restores setting s) ∧
      ∀ call : UnmountCall, call.Finds setting s := by
  have hinv := Mounts.run_inv calls _ (Mounts.inv_init filesystemsMax devices) hclean hrun
  refine ⟨hinv.consistent, fun call hcall s' hmount => ?_, fun call => UnmountCall.finds hinv⟩
  exact (dfsMount_spec hinv hcall hmount).restored rfl

def plainSetting : Setting where
  workingDirectory := some ['/']
  types := [some ⟨['r', 'a', 'm'], true, true, true⟩]
  findDevice := fun _ => none

def closedDevice : Device where
  activated := false
  standalone := false
  isOpen := false
  refCount := 0

def plainMount (path : Path) : MountOrUnmount :=
  .mount
    { deviceName := none
      path := path
      filesystemtype := ['r', 'a', 'm']
      memory := true
      openMemory := true
      openDirectory := 0
      deviceInit := 0
      deviceOpen := 0
      deviceClose := 0
      mount := 0 }

def twoMounts : Mounts :=
  ((Mounts.init 2 fun _ => closedDevice).run plainSetting
    [plainMount ['/'], plainMount ['d', 'e', 'v', '/', '.', '/']]).get (by decide)

theorem mounts_of_two : twoMounts.Consistent ∧
      (∀ call : MountCall, call.Clean plainSetting twoMounts →
        call.Restores plainSetting twoMounts) ∧
      ∀ call : UnmountCall, call.Finds plainSetting twoMounts :=
  mounts_of_runClean plainSetting 2 (fun _ => closedDevice)
    [plainMount ['/'], plainMount ['d', 'e', 'v', '/', '.', '/']] twoMounts
    (by decide) (some_get _).symm

/-- The root is mounted once more under the name `//`. -/
theorem mounts_root_twice : ¬ ∀ (setting : Setting) (filesystemsMax : ℕ) (devices : ℕ → Device)
        (calls : List MountOrUnmount) (s : Mounts),
      (Mounts.init filesystemsMax devices).run setting calls = some s →
        s.Consistent ∧ (∀ call : MountCall, call.Restores setting s) ∧
          ∀ call : UnmountCall, call.Finds setting s := by
  intro h
  have hrun : ((Mounts.init 2 fun _ => closedDevice).run plainSetting
      [plainMount ['/'], plainMount ['/', '/']]).map Mounts.table = some (replicate 2
          { path := some ['/'], ops := some ⟨['r', 'a', 'm'], true, true, true⟩, dev := none }) := by
    decide
  obtain ⟨s, hs, htable⟩ := map_eq_some_iff.mp hrun
  have hdistinct := (h plainSetting 2 (fun _ => closedDevice) _ s hs).1.distinct 0 1
  rw [htable] at hdistinct
  exact absurd (hdistinct _ _ rfl rfl (some_ne_none _) (some_ne_none _) rfl)
    Nat.zero_ne_one

end RtThread.Dfs
