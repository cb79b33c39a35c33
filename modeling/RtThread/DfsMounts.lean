import RtThread.DfsPaths

/-!
# The table of mounted file systems

`dfs_mount` and `dfs_unmount` over `filesystem_table`, with the open counts of
the devices.  The answers of the drivers, of the file systems and of the heap
are part of the calls.
-/

namespace RtThread.Dfs

open Function

open SlashPath (ProperName render resolve Normalised)

abbrev Name := List Char

structure FsType where
  name : Name
  hasOpen : Bool
  hasMount : Bool
  hasUnmount : Bool
  deriving DecidableEq

structure Mounted where
  path : Option Path
  ops : Option FsType
  dev : Option ℕ
  deriving DecidableEq

def Mounted.cleared : Mounted where
  path := none
  ops := none
  dev := none

structure Device where
  activated : Bool
  standalone : Bool
  isOpen : Bool
  refCount : BitVec 8
  deriving DecidableEq

/-- The working directory (`none` without `DFS_USING_WORKDIR`), `filesystem_operation_table` and
`rt_device_find`. -/
structure Setting where
  workingDirectory : Option Path
  types : List (Option FsType)
  findDevice : Name → Option ℕ

structure Mounts where
  table : List Mounted
  devices : ℕ → Device

def Mounts.init (filesystemsMax : ℕ) (devices : ℕ → Device) : Mounts where
  table := List.replicate filesystemsMax .cleared
  devices := devices

inductive Result
  | returned (s : Mounts) (result : ℤ)
  | fault

def RT_ENOSYS : ℤ := 6
def RT_EBUSY : ℤ := 7

/-- `rt_device_open` with the answers of the driver; `none` is the failed assertion on the
count. -/
def rtDeviceOpen (initResult openResult : ℤ) (d : Device) : Option (Device × ℤ) :=
  if !d.activated && initResult ≠ 0 then some (d, initResult)
  else
    let d := { d with activated := true }
    if d.standalone && d.isOpen then some (d, -RT_EBUSY)
    else if d.refCount + 1 = 0 then none
    else if openResult = 0 ∨ openResult = -RT_ENOSYS then
      some ({ d with refCount := d.refCount + 1, isOpen := true }, openResult)
    else some ({ d with refCount := d.refCount + 1 }, openResult)

def rtDeviceClose (close : ℤ) (d : Device) : Device :=
  if d.refCount = 0 then d
  else if d.refCount - 1 ≠ 0 ∨ (close ≠ 0 ∧ close ≠ -RT_ENOSYS) then
    { d with refCount := d.refCount - 1 }
  else { d with refCount := d.refCount - 1, isOpen := false }

structure MountCall where
  deviceName : Option Name
  path : Path
  filesystemtype : Name
  /-- There is memory for the normal spelling. -/
  memory : Bool
  /-- The answers to `dfs_file_open`: memory for its path, and the file system's `open`. -/
  openMemory : Bool
  openDirectory : ℤ
  /-- The answers of the driver and of the file system that is mounted. -/
  deviceInit : ℤ
  deviceOpen : ℤ
  deviceClose : ℤ
  mount : ℤ

def findType (name : Name) : List (Option FsType) → Option (Option FsType)
  | [] => some none
  | none :: _ => none
  | some ops :: types => if ops.name = name then some (some ops) else findType name types

/-- `dfs_filesystem_lookup`: the last of the longest mount points that start the path. -/
def dfsFilesystemLookup (table : List Mounted) (path : Path) : Option FsType :=
  (table.foldl
    (fun found entry =>
      match entry.path, entry.ops with
      | some fspath, some ops =>
        if fspath.length < found.1 ∨ ¬ fspath <+: path then found
        else if 1 < fspath.length ∧ fspath.length < path.length ∧
            path[fspath.length]? ≠ some '/' then found
        else (fspath.length, some ops)
      | _, _ => found)
    (0, none)).2

def MountCall.exists (setting : Setting) (s : Mounts) (call : MountCall) (fullpath : Path) :
    Bool :=
  match dfsNormalizePath setting.workingDirectory call.openMemory fullpath with
  | none => false
  | some path =>
    match dfsFilesystemLookup s.table path with
    | none => false
    | some ops => ops.hasOpen && decide (0 ≤ call.openDirectory)

/-- What `dfs_mount` registers, and where. -/
structure Registration where
  idx : ℕ
  entry : Mounted

/-- `dfs_mount` up to the registration: `none` is a null pointer, `some none` the return of
-1. -/
def MountCall.register (setting : Setting) (s : Mounts) (call : MountCall) :
    Option (Option Registration) :=
  if call.deviceName.isSome ∧ (call.deviceName.bind setting.findDevice).isNone then some none
  else
    (findType call.filesystemtype setting.types).map fun found =>
      found.bind fun ops =>
        if !ops.hasMount then none
        else
          (dfsNormalizePath setting.workingDirectory call.memory call.path).bind fun fullpath =>
            if fullpath ≠ ['/'] ∧ fullpath ≠ ['/', 'd', 'e', 'v'] ∧
                !call.exists setting s fullpath then none
            -- the mounted paths are compared with the spelling
            else if s.table.any fun entry => entry.ops.isSome && entry.path == some call.path then
              none
            else
              (s.table.findIdx? fun entry => entry.ops.isNone).map fun idx =>
                { idx := idx
                  entry :=
                    { path := some fullpath
                      ops := some ops
                      dev := call.deviceName.bind setting.findDevice } }

def MountCall.finish (s : Mounts) (call : MountCall) (r : Registration) : Result :=
  let table := s.table.set r.idx r.entry
  match r.entry.dev with
  | none =>
    if call.mount < 0 then .returned { s with table := table.set r.idx .cleared } (-1)
    else .returned { s with table := table } 0
  | some dev =>
    match rtDeviceOpen call.deviceInit call.deviceOpen (s.devices dev) with
    | none => .fault
    | some (d, result) =>
      if result ≠ 0 then
        .returned
          { table := table.set r.idx .cleared, devices := update s.devices dev d } (-1)
      else if call.mount < 0 then
        .returned
          { table := table.set r.idx .cleared
            devices := update s.devices dev (rtDeviceClose call.deviceClose d) }
          (-1)
      else
        .returned { table := table, devices := update s.devices dev d } 0

def dfsMount (setting : Setting) (call : MountCall) (s : Mounts) : Result :=
  match call.register setting s with
  | none => .fault
  | some none => .returned s (-1)
  | some (some r) => call.finish s r

structure UnmountCall where
  specialfile : Path
  memory : Bool
  unmount : ℤ
  deviceClose : ℤ

def UnmountCall.finish (s : Mounts) (call : UnmountCall) (idx : ℕ) : Result :=
  match s.table[idx]? with
  | none => .returned s (-1)
  | some entry =>
    match entry.ops with
    | none => .fault
    | some ops =>
      if !ops.hasUnmount || decide (call.unmount < 0) then .returned s (-1)
      else
        .returned
          { table := s.table.set idx .cleared
            devices := match entry.dev with
              | none => s.devices
              | some dev =>
                update s.devices dev (rtDeviceClose call.deviceClose (s.devices dev)) }
          0

def dfsUnmount (setting : Setting) (call : UnmountCall) (s : Mounts) : Result :=
  match dfsNormalizePath setting.workingDirectory call.memory call.specialfile with
  | none => .returned s (-1)
  | some fullpath =>
    match s.table.findIdx? fun entry => entry.path == some fullpath with
    | none => .returned s (-1)
    | some idx => call.finish s idx

end RtThread.Dfs
