import Mathlib.Data.List.Range
import Mathlib.Tactic

/-!
# File descriptors of DFS

A call of `dfs_posix.c` is the list of its steps on the slot of the table that
it works on: `fd_new`, `fd_get` and `fd_put` are atomic under the lock of the
file system, the steps of `dfs_file_open` and `dfs_file_close` are not
protected.  What the file systems and the mount lookup answer is part of the
call.
-/

namespace RtThread.Dfs

open Function

abbrev Word := BitVec 32

abbrev Path := List Char

def DFS_FD_MAGIC : ℕ := 0xfdfd

structure Config where
  firstFd : ℕ
  fdMax : ℕ

structure DfsFd where
  magic : ℕ
  path : Option Path
  refCount : ℤ
  fs : Option ℕ
  size : Word
  pos : Word
  data : ℕ
  deriving DecidableEq

def DfsFd.cleared : DfsFd where
  magic := 0
  path := none
  refCount := 0
  fs := none
  size := 0
  pos := 0
  data := 0

abbrev Table := ℕ → DfsFd

def Config.InRange (cfg : Config) (fd : ℕ) : Prop :=
  cfg.firstFd ≤ fd ∧ fd < cfg.firstFd + cfg.fdMax

instance (cfg : Config) (fd : ℕ) : Decidable (cfg.InRange fd) :=
  inferInstanceAs (Decidable (_ ∧ _))

def fdNew (cfg : Config) (t : Table) : Option (ℕ × Table) :=
  ((List.range' cfg.firstFd cfg.fdMax).find? fun idx => (t idx).refCount ≤ 0).map fun idx =>
    (idx, update t idx { t idx with refCount := 1, magic := DFS_FD_MAGIC })

def fdGet (cfg : Config) (fd : ℕ) (t : Table) : Option Table :=
  if cfg.InRange fd ∧ (t fd).magic = DFS_FD_MAGIC then
    some (update t fd { t fd with refCount := (t fd).refCount + 1 })
  else none

def DfsFd.put (d : DfsFd) : DfsFd :=
  if d.refCount - 1 = 0 then .cleared else { d with refCount := d.refCount - 1 }

structure Contents where
  fs : ℕ
  path : Option Path
  data : ℕ
  deriving DecidableEq

inductive Action
  | new | get | put
  /-- `fd_get` of the descriptor of `fd_new`, which is not checked. -/
  | getNew
  /-- `fd->fs = fs` -/
  | setFs (fs : ℕ)
  | setPath (path : Option Path)
  /-- What `fs->ops->open` stores. -/
  | setData (data : ℕ) (size pos : Word)
  /-- `rt_memset(fd, 0, sizeof(*fd))` -/
  | clear
  /-- An operation of `fd->fs`. -/
  | callFs
  | seek (size pos : Word)
  /-- The call returns the descriptor. -/
  | ret (c : Contents)
  deriving DecidableEq

/-- The descriptor and the table after a step; or the call returns with an error there, or it
follows a null pointer. -/
inductive Outcome
  | next (fd : ℕ) (t : Table)
  | leave
  | fault

def Action.exec (cfg : Config) (fd : ℕ) (t : Table) : Action → Outcome
  | .new =>
    match fdNew cfg t with
    | some next => .next next.1 next.2
    | none => .leave
  | .get =>
    match fdGet cfg fd t with
    | some t => .next fd t
    | none => .leave
  | .getNew =>
    match fdGet cfg fd t with
    | some t => .next fd t
    | none => .fault
  | .put => .next fd (update t fd (t fd).put)
  | .setFs fs => .next fd (update t fd { t fd with fs := some fs, size := 0, pos := 0 })
  | .setPath path => .next fd (update t fd { t fd with path := path })
  | .setData data size pos =>
    .next fd (update t fd { t fd with data := data, size := size, pos := pos })
  | .clear => .next fd (update t fd .cleared)
  | .callFs => if (t fd).fs = none then .fault else .next fd t
  | .seek size pos => .next fd (update t fd { t fd with size := size, pos := pos })
  | .ret _ => .next fd t

/-- How `dfs_file_open` ends: without a path, without a file system, without an operation, with
an error of the operation, or well. -/
inductive Opening
  | noPath
  | noFilesystem
  | noOperation (fs : ℕ) (path : Option Path)
  | failed (fs : ℕ) (path : Option Path)
  | opened (c : Contents) (size pos : Word)
  deriving DecidableEq

def Opening.actions : Opening → List Action
  | .noPath => []
  | .noFilesystem => []
  | .noOperation fs path => [.setFs fs, .setPath path, .clear]
  | .failed fs path => [.setFs fs, .setPath path, .clear]
  | .opened c size pos => [.setFs c.fs, .setPath c.path, .setData c.data size pos]

def Opening.contents : Opening → Option Contents
  | .opened c _ _ => some c
  | _ => none

def dfsFileClose (result : ℤ) : List Action :=
  if result < 0 then [.callFs] else [.callFs, .clear]

inductive Call
  | openFile (opening : Opening)
  | closeFile (fd : ℕ) (result : ℤ)
  /-- `read`, `write`, `readdir` and an `lseek` that reaches the file system. -/
  | access (fd : ℕ) (size pos : Word)
  /-- `fstat`, and `readdir` from its buffer. -/
  | fstat (fd : ℕ)
  /-- `lseek` with an unknown `whence` or a negative offset. -/
  | lseekInvalid (fd : ℕ)
  | mkdir (opening : Opening) (result : ℤ)
  /-- `opendir`; `memory` tells whether there is memory for the `DIR`. -/
  | opendir (opening : Opening) (memory : Bool) (result : ℤ)
  | closedir (fd : ℕ) (result : ℤ)

def Call.script : Call → List Action
  | .openFile opening =>
    [.new, .getNew] ++ opening.actions ++ match opening.contents with
      | some c => [.put, .ret c]
      | none => [.put, .put]
  | .closeFile _ result =>
    [.get] ++ dfsFileClose result ++ [.put] ++ if result < 0 then [] else [.put]
  | .access _ size pos => [.get, .callFs, .seek size pos, .put]
  | .fstat _ => [.get, .put]
  | .lseekInvalid _ => [.get]
  | .mkdir opening result =>
    [.new, .getNew] ++ opening.actions ++ match opening.contents with
      | some _ => dfsFileClose result ++ [.put]
      | none => [.put]
  | .opendir opening memory result =>
    [.new, .getNew] ++ opening.actions ++ match opening.contents with
      | some c => if memory then [.put, .ret c] else dfsFileClose result ++ [.put, .put]
      | none => [.put, .put]
  | .closedir _ result => [.get] ++ dfsFileClose result ++ [.put, .put]

def Call.fd : Call → Option ℕ
  | .closeFile fd _ => some fd
  | .access fd _ _ => some fd
  | .fstat fd => some fd
  | .lseekInvalid fd => some fd
  | .closedir fd _ => some fd
  | _ => none

def Call.closes : Call → Bool
  | .closeFile _ result => decide (0 ≤ result)
  | .closedir _ _ => true
  | _ => false

end RtThread.Dfs
