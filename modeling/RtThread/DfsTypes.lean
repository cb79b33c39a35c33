import RtThread.DfsMountRuns

/-!
# File system types

`dfs_register` fills `filesystem_operation_table` from its start, and
`dfs_mount` searches it for the type of a mount.
-/

namespace RtThread.Dfs

open List

abbrev TypeTable := List (Option FsType)

def registerScan (name : Name) : ℕ → Option ℕ → TypeTable → Option ℕ × ℤ
  | _, empty, [] => (empty, 0)
  | idx, empty, none :: types =>
    registerScan name (idx + 1) (if empty.isNone then some idx else empty) types
  | idx, empty, some iter :: types =>
    if iter.name = name then (empty, -1) else registerScan name (idx + 1) empty types

def dfsRegister (ops : FsType) (types : TypeTable) : TypeTable × ℤ :=
  match registerScan ops.name 0 none types with
  | (some empty, 0) => (types.set empty (some ops), 0)
  | (_, ret) => (types, ret)

structure Tables where
  types : TypeTable
  mounts : Mounts

inductive TypeCall
  | register (ops : FsType)
  | mount (call : MountCall)

def Setting.withTypes (setting : Setting) (types : TypeTable) : Setting :=
  { setting with types := types }

def Tables.init (typesMax filesystemsMax : ℕ) (devices : ℕ → Device) : Tables where
  types := List.replicate typesMax none
  mounts := Mounts.init filesystemsMax devices

def Tables.step (setting : Setting) (s : Tables) : TypeCall → Option Tables
  | .register ops => some { s with types := (dfsRegister ops s.types).1 }
  | .mount call =>
    match dfsMount (setting.withTypes s.types) call s.mounts with
    | .returned mounts _ => some { s with mounts := mounts }
    | .fault => none

def Tables.run (setting : Setting) (calls : List TypeCall) (s : Tables) : Option Tables :=
  calls.foldlM (Tables.step setting) s

def TypeTable.Registered (types : TypeTable) (name : Name) : Prop :=
  ∃ iter, some iter ∈ types ∧ iter.name = name

def TypeTable.OnlyEntry (types : TypeTable) (ops : FsType) : Prop :=
  ∃ i, types[i]? = some (some ops) ∧
    ∀ (j : ℕ) (iter : FsType), types[j]? = some (some iter) → iter.name = ops.name → j = i

structure MountCall.Selects (setting : Setting) (types : TypeTable) (mounts : Mounts)
    (call : MountCall) : Prop where
  entry : ∀ ops, some ops ∈ types → ops.name = call.filesystemtype →
    findType call.filesystemtype types = some (some ops) ∧
      ∀ r, call.register (setting.withTypes types) mounts = some (some r) → r.entry.ops = some ops
  missing : ¬ types.Registered call.filesystemtype →
    dfsMount (setting.withTypes types) call mounts = .returned mounts (-1)

def TypeCall.Right (setting : Setting) (s : Tables) : TypeCall → Prop
  | .register ops =>
    (dfsRegister ops s.types).2 = 0 → TypeTable.OnlyEntry (dfsRegister ops s.types).1 ops
  | .mount call => call.Selects setting s.types s.mounts

def MountCall.NoDevice (setting : Setting) (call : MountCall) : Prop :=
  call.deviceName.isSome ∧ (call.deviceName.bind setting.findDevice).isNone

/-- Registering: the name is known or an entry is free.  Mounting: the name is known or no entry
is free. -/
def TypeCall.Fits (setting : Setting) (s : Tables) : TypeCall → Prop
  | .register ops => s.types.Registered ops.name ∨ none ∈ s.types
  | .mount call =>
    call.NoDevice setting ∨ s.types.Registered call.filesystemtype ∨ none ∉ s.types

def TypeTable.Filled (types : TypeTable) : Prop :=
  ∃ (used : List FsType) (free : ℕ),
    types = used.map some ++ List.replicate free none ∧ (used.map FsType.name).Nodup

section Table

variable {used : List FsType} {ops iter : FsType} {name : Name}
  {idx free : ℕ}

theorem mem_filled :
    some iter ∈ (used.map some ++ List.replicate free none : TypeTable) ↔ iter ∈ used := by
  simp [mem_append, mem_replicate]

theorem registered_filled : TypeTable.Registered (used.map some ++ List.replicate free none) name ↔
      name ∈ used.map FsType.name := by
  unfold TypeTable.Registered
  simp only [mem_filled, mem_map]

theorem none_mem_filled :
    none ∈ (used.map some ++ List.replicate free none : TypeTable) ↔ free ≠ 0 := by
  simp [mem_append, mem_replicate]

theorem registerScan_free (free : ℕ) (idx : ℕ) (first : ℕ) :
    registerScan name idx (some first) (List.replicate free none) = (some first, 0) := by
  induction free generalizing idx with
  | zero => rfl
  | succ free ih =>
    rw [replicate_succ, registerScan]
    exact ih (idx + 1)

theorem registerScan_filled (used : List FsType) (idx : ℕ) :
    registerScan name idx none (used.map some ++ List.replicate free none) =
      if name ∈ used.map FsType.name then (none, -1)
      else (if free = 0 then none else some (idx + used.length), 0) := by
  induction used generalizing idx with
  | nil =>
    cases free with
    | zero => rfl
    | succ free =>
      rw [map_nil, nil_append, replicate_succ, registerScan]
      simp [registerScan_free]
  | cons iter used ih =>
    simp only [map_cons, cons_append, registerScan, ih]
    by_cases hname : iter.name = name
    · simp [hname]
    · have hother : name ≠ iter.name := fun h => hname h.symm
      have hlen : idx + 1 + used.length = idx + (used.length + 1) := by omega
      simp [hname, hother, hlen]

theorem dfsRegister_cases (hnodup : (used.map FsType.name).Nodup) :
    (ops.name ∈ used.map FsType.name ∧ dfsRegister ops (used.map some ++ List.replicate free none) =
          (used.map some ++ List.replicate free none, -1)) ∨
      (∃ rest, free = rest + 1 ∧ ((used ++ [ops]).map FsType.name).Nodup ∧
        dfsRegister ops (used.map some ++ List.replicate free none) =
          ((used ++ [ops]).map some ++ List.replicate rest none, 0)) ∨
      (ops.name ∉ used.map FsType.name ∧ free = 0 ∧
        dfsRegister ops (used.map some ++ List.replicate free none) =
          (used.map some ++ List.replicate free none, 0)) := by
  have hscan := @registerScan_filled ops.name free used 0
  unfold dfsRegister
  rw [hscan]
  by_cases hname : ops.name ∈ used.map FsType.name
  · left
    exact ⟨hname, by simp only [if_pos hname]⟩
  · right
    cases free with
    | zero =>
      right
      exact ⟨hname, rfl, by simp only [if_neg hname, if_pos]⟩
    | succ rest =>
      left
      have hfresh : ((used ++ [ops]).map FsType.name).Nodup := by
        rw [map_append, nodup_append]
        simp only [map_cons, map_nil, mem_singleton]
        exact ⟨hnodup, nodup_singleton _, fun n hn m hm h => hname (hm ▸ h ▸ hn)⟩
      have hset : (used.map some ++ List.replicate (rest + 1) none : TypeTable).set
          (0 + used.length) (some ops) = (used ++ [ops]).map some ++ List.replicate rest none := by
        rw [Nat.zero_add, set_append_right _ _ (by simp)]
        simp [replicate_succ]
      refine ⟨rest, rfl, hfresh, ?_⟩
      rw [if_neg hname, if_neg (Nat.succ_ne_zero rest), ← hset]
      rfl

theorem findType_filled (hnodup : (used.map FsType.name).Nodup) : (∀ ops ∈ used, ops.name = name →
        findType name (used.map some ++ List.replicate free none) = some (some ops)) ∧
      (name ∉ used.map FsType.name → findType name (used.map some ++ List.replicate free none) =
          if free = 0 then some none else none) := by
  induction used with
  | nil =>
    constructor
    · intro ops hmem
      cases hmem
    · intro _
      cases free <;> rfl
  | cons iter used ih =>
    rw [map_cons, nodup_cons] at hnodup
    have hih := ih hnodup.2
    simp only [map_cons, cons_append, findType]
    constructor
    · intro ops hmem hname
      cases mem_cons.mp hmem with
      | inl hhead =>
        rw [← hhead, if_pos hname]
      | inr htail =>
        have hother : iter.name ≠ name := by
          intro hiter
          exact hnodup.1 (mem_map.mpr ⟨ops, htail, hname.trans hiter.symm⟩)
        rw [if_neg hother]
        exact hih.1 ops htail hname
    · intro hname
      rw [mem_cons, not_or] at hname
      rw [if_neg (Ne.symm hname.1)]
      exact hih.2 hname.2

theorem Filled.onlyEntry (hnodup : ((used ++ [ops]).map FsType.name).Nodup) :
    TypeTable.OnlyEntry ((used ++ [ops]).map some ++ List.replicate free none) ops := by
  refine ⟨used.length, by simp, fun j iter hget hname => ?_⟩
  have hlen : j < (used ++ [ops]).length := by
    by_contra hj
    have hle : ((used ++ [ops]).map some).length ≤ j := by simpa using hj
    rw [getElem?_append_right hle, getElem?_replicate] at hget
    split at hget <;> simp at hget
  have hj : ((used ++ [ops]).map FsType.name)[j]? = some ops.name := by
    rw [getElem?_append_left (by simpa using hlen), getElem?_map] at hget
    obtain ⟨other, hother, hsame⟩ := Option.map_eq_some_iff.mp hget
    rw [getElem?_map, hother, Option.map_some, Option.some.inj hsame, hname]
  have hlast : ((used ++ [ops]).map FsType.name)[used.length]? = some ops.name := by simp
  exact (getElem?_inj (by simpa using hlen) hnodup).mp (hj.trans hlast.symm)

end Table

section Runs

variable {setting : Setting} {s s' : Tables} {call : TypeCall}

theorem Tables.step_filled (hfilled : s.types.Filled) (hstep : s.step setting call = some s') :
    s'.types.Filled := by
  cases call with
  | register ops =>
    rw [← Option.some.inj hstep]
    obtain ⟨used, free, htypes, hnodup⟩ := hfilled
    simp only [htypes]
    rcases @dfsRegister_cases used ops free hnodup with
      ⟨_, heq⟩ | ⟨rest, _, hfresh, heq⟩ | ⟨_, _, heq⟩
    · rw [heq]
      exact ⟨used, free, rfl, hnodup⟩
    · rw [heq]
      exact ⟨used ++ [ops], rest, rfl, hfresh⟩
    · rw [heq]
      exact ⟨used, free, rfl, hnodup⟩
  | mount call =>
    simp only [Tables.step] at hstep
    split at hstep
    · rw [← Option.some.inj hstep]
      exact hfilled
    · cases hstep

theorem Tables.run_filled (calls : List TypeCall) :
    ∀ s : Tables, s.types.Filled → s.run setting calls = some s' → s'.types.Filled := by
  induction calls with
  | nil =>
    intro s hfilled hrun
    rw [← Option.some.inj hrun]
    exact hfilled
  | cons call calls ih =>
    intro s hfilled hrun
    unfold Tables.run at hrun
    rw [foldlM_cons] at hrun
    obtain ⟨next, hstep, hrun⟩ := Option.bind_eq_some_iff.mp hrun
    exact ih next (Tables.step_filled hfilled hstep) hrun

theorem Tables.init_filled (typesMax filesystemsMax : ℕ) (devices : ℕ → Device) :
    (Tables.init typesMax filesystemsMax devices).types.Filled :=
  ⟨[], typesMax, rfl, nodup_nil⟩

/-- A registration answers as it should exactly when there is room or the name is taken. -/
theorem register_right_iff (hfilled : s.types.Filled) (ops : FsType) :
    TypeCall.Right setting s (.register ops) ↔ TypeCall.Fits setting s (.register ops) := by
  obtain ⟨used, free, htypes, hnodup⟩ := hfilled
  simp only [TypeCall.Right, TypeCall.Fits, htypes, registered_filled, none_mem_filled]
  rcases @dfsRegister_cases used ops free hnodup with
    ⟨hname, heq⟩ | ⟨rest, hfree, hfresh, heq⟩ | ⟨hname, hfree, heq⟩
  · rw [heq]
    exact iff_of_true (fun h => absurd h (Int.negSucc_ne_zero 0)) (.inl hname)
  · rw [heq]
    exact iff_of_true (fun _ => Filled.onlyEntry hfresh) (.inr (by omega))
  · rw [heq]
    refine iff_of_false (fun h => ?_) (not_or.mpr ⟨hname, not_not.mpr hfree⟩)
    obtain ⟨i, hget, -⟩ := h rfl
    exact hname (mem_map_of_mem (mem_filled.mp (mem_of_getElem? hget)))

theorem register_entry {call : MountCall} {types : TypeTable} {mounts : Mounts} {ops : FsType}
    {r : Registration} (hfind : findType call.filesystemtype types = some (some ops))
    (hregister : call.register (setting.withTypes types) mounts = some (some r)) :
    r.entry.ops = some ops := by
  unfold MountCall.register at hregister
  split at hregister
  · simp at hregister
  · have htypes : (setting.withTypes types).types = types := rfl
    rw [htypes, hfind, Option.map_some, Option.bind_some] at hregister
    have hrest := Option.some.inj hregister
    split at hrest
    · cases hrest
    · obtain ⟨fullpath, _, hrest⟩ := Option.bind_eq_some_iff.mp hrest
      split at hrest
      · cases hrest
      · split at hrest
        · cases hrest
        · obtain ⟨idx, _, hentry⟩ := Option.map_eq_some_iff.mp hrest
          rw [← hentry]

theorem dfsMount_missing {call : MountCall} {types : TypeTable} {mounts : Mounts} {free : ℕ}
    (hdevice : ¬ call.NoDevice setting)
    (hfind : findType call.filesystemtype types = if free = 0 then some none else none) :
    dfsMount (setting.withTypes types) call mounts =
      if free = 0 then .returned mounts (-1) else .fault := by
  have htypes : (setting.withTypes types).types = types := rfl
  have hregister : call.register (setting.withTypes types) mounts =
      if free = 0 then some none else none := by
    have hsearch : ¬ (call.deviceName.isSome = true ∧
        (call.deviceName.bind (setting.withTypes types).findDevice).isNone = true) := hdevice
    unfold MountCall.register
    rw [if_neg hsearch, htypes, hfind]
    by_cases hfree : free = 0
    · rw [if_pos hfree, if_pos hfree, Option.map_some, Option.bind_none]
    · rw [if_neg hfree, if_neg hfree, Option.map_none]
  unfold dfsMount
  rw [hregister]
  by_cases hfree : free = 0
  · simp only [if_pos hfree]
  · simp only [if_neg hfree]

theorem mount_right_iff (hfilled : s.types.Filled) (call : MountCall) :
    TypeCall.Right setting s (.mount call) ↔ TypeCall.Fits setting s (.mount call) := by
  obtain ⟨used, free, htypes, hnodup⟩ := hfilled
  have hfind := @findType_filled used call.filesystemtype free hnodup
  have hentry : ∀ ops, some ops ∈ s.types → ops.name = call.filesystemtype →
      findType call.filesystemtype s.types = some (some ops) ∧
        ∀ r, call.register (setting.withTypes s.types) s.mounts = some (some r) →
          r.entry.ops = some ops := by
    intro ops hmem hname
    rw [htypes, mem_filled] at hmem
    have hops := hfind.1 ops hmem hname
    rw [← htypes] at hops
    exact ⟨hops, fun r hregister => register_entry hops hregister⟩
  have hknown : s.types.Registered call.filesystemtype ↔
      call.filesystemtype ∈ used.map FsType.name := by
    rw [htypes]
    exact registered_filled
  have hroom : none ∈ s.types ↔ free ≠ 0 := by
    rw [htypes]
    exact none_mem_filled
  by_cases hdevice : call.NoDevice setting
  · have hmount : dfsMount (setting.withTypes s.types) call s.mounts = .returned s.mounts (-1) := by
      have hregister : call.register (setting.withTypes s.types) s.mounts = some none :=
        if_pos hdevice
      unfold dfsMount
      rw [hregister]
    exact iff_of_true ⟨hentry, fun _ => hmount⟩ (.inl hdevice)
  · by_cases hname : s.types.Registered call.filesystemtype
    · exact iff_of_true ⟨hentry, fun h => absurd hname h⟩ (.inr (.inl hname))
    · -- with a free entry the search follows a null pointer
      have hmissing := hfind.2 (fun h => hname (hknown.mpr h))
      rw [← htypes] at hmissing
      have hmount := @dfsMount_missing setting call s.types s.mounts free hdevice hmissing
      constructor
      · intro hright
        have hreturn := hright.missing hname
        rw [hmount] at hreturn
        right
        right
        intro hnone
        rw [if_neg (hroom.mp hnone)] at hreturn
        simp at hreturn
      · intro hfits
        have hfree : free = 0 := by
          rcases hfits with hfits | hfits | hfits
          · contradiction
          · contradiction
          · exact not_not.mp (fun h => hfits (hroom.mpr h))
        exact ⟨hentry, fun _ => by rw [hmount, if_pos hfree]⟩

end Runs

/-- After any calls: registering a type is right when its name is known or there is room for it,
and a mount when its type is known or the table is full. -/
theorem typeCall_right_iff (setting : Setting) (typesMax filesystemsMax : ℕ)
    (devices : ℕ → Device) (calls : List TypeCall) (s : Tables) (call : TypeCall)
    (hrun : (Tables.init typesMax filesystemsMax devices).run setting calls = some s) :
    call.Right setting s ↔ call.Fits setting s := by
  have hfilled := Tables.run_filled calls _ (Tables.init_filled _ _ _) hrun
  cases call with
  | register ops => exact register_right_iff hfilled ops
  | mount call => exact mount_right_iff hfilled call

def ramType : FsType := ⟨['r', 'a', 'm'], true, true, true⟩

def romType : FsType := ⟨['r', 'o', 'm'], true, true, true⟩

def oneType : Tables where
  types := [some ramType, none]
  mounts := Mounts.init 1 fun _ => closedDevice

theorem typeCall_right_of_one : TypeCall.Right plainSetting oneType (.register romType) ↔
      TypeCall.Fits plainSetting oneType (.register romType) :=
  typeCall_right_iff plainSetting 2 1 (fun _ => closedDevice) [.register ramType] oneType
    (.register romType) rfl

def mountOf (filesystemtype : Name) : MountCall where
  deviceName := none
  path := ['/']
  filesystemtype := filesystemtype
  memory := true
  openMemory := true
  openDirectory := 0
  deviceInit := 0
  deviceOpen := 0
  deviceClose := 0
  mount := 0

/-- A full table loses a type that is registered with success, and a mount of a missing type
follows the null pointer of the first free entry. -/
theorem typeCall_wrong :
    (¬ ∀ (setting : Setting) (typesMax filesystemsMax : ℕ) (devices : ℕ → Device)
        (calls : List TypeCall) (s : Tables) (ops : FsType),
      (Tables.init typesMax filesystemsMax devices).run setting calls = some s →
        TypeCall.Right setting s (.register ops)) ∧
    dfsMount (plainSetting.withTypes oneType.types) (mountOf romType.name) oneType.mounts =
      .fault := by
  constructor
  · intro h
    have hright := h plainSetting 1 1 (fun _ => closedDevice) [.register ramType]
      { types := [some ramType], mounts := Mounts.init 1 fun _ => closedDevice } romType rfl rfl
    obtain ⟨i, hget, -⟩ := hright
    have hmem := mem_of_getElem? hget
    revert hmem
    decide
  · rfl

end RtThread.Dfs
