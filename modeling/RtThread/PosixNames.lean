import RtThread.GuardedRun

/-!
# Named semaphores and message queues

`sem_open`, `sem_close` and `sem_unlink` do with semaphores what `mq_open`, `mq_close` and
`mq_unlink` do with message queues.  The two files differ in the bytes which are compared
with a name: those of the kernel object of a message queue, and those from the member `sem`
on of a semaphore.
-/

namespace RtThread.PosixNames

structure Name (nameMax : ℕ) where
  chars : List UInt8
  ne_zero : 0 ∉ chars
  short : chars.length < nameMax
  deriving DecidableEq

/-- `struct posix_sem` or `struct mqdes` at an address, with the name given to its kernel
object. -/
structure Entry (nameMax : ℕ) where
  addr : UInt32
  refcount : ℕ
  unlinked : Bool
  object : UInt32
  name : Name nameMax
  deriving DecidableEq

/-- The list, and as history how often the structure at an address has been opened and not
closed, the entries which have been freed, and the number of those created. -/
structure Space (nameMax : ℕ) where
  list : List (Entry nameMax)
  held : UInt32 → ℕ
  freed : List (Entry nameMax)
  created : ℕ

/-- `O_CREAT` and `O_EXCL`. -/
structure Flags where
  creat : Bool
  excl : Bool
  deriving DecidableEq

variable {nameMax : ℕ}

def strncmpEq : ℕ → List UInt8 → List UInt8 → Bool
  | 0, _, _ => true
  | n + 1, cs, ct =>
    if cs.headD 0 ≠ ct.headD 0 then false
    else if cs.headD 0 = 0 then true
    else strncmpEq n cs.tail ct.tail

def rtStrncpy (src : List UInt8) (n : ℕ) : List UInt8 :=
  src.take n ++ List.replicate (n - src.length) 0

def wordBytes (w : UInt32) : List UInt8 :=
  [w.toUInt8, (w >>> 8).toUInt8, (w >>> 16).toUInt8, (w >>> 24).toUInt8]

def headAddr : List (Entry nameMax) → UInt32
  | [] => 0
  | e :: _ => e.addr

def mqText (e : Entry nameMax) (_next : UInt32) : List UInt8 := rtStrncpy e.name.chars nameMax

/-- The bytes of a `struct posix_sem` from `sem` on, which is followed by `next` and the memory
`behind` the structure. -/
def semText (behind : UInt32 → List UInt8) (e : Entry nameMax) (next : UInt32) : List UInt8 :=
  wordBytes e.object ++ wordBytes next ++ behind e.addr

def findName (text : Entry nameMax → UInt32 → List UInt8) (name : Name nameMax) :
    List (Entry nameMax) → Option (Entry nameMax)
  | [] => none
  | e :: rest =>
    if strncmpEq nameMax (text e (headAddr rest)) name.chars then some e
    else findName text name rest

def posixSemFind (behind : UInt32 → List UInt8) (name : Name nameMax) :
    List (Entry nameMax) → Option (Entry nameMax) := findName (semText behind) name

def posixMqFind (name : Name nameMax) : List (Entry nameMax) → Option (Entry nameMax) :=
  findName mqText name

namespace Space

def setEntry (s : Space nameMax) (e : Entry nameMax) : Space nameMax :=
  { s with list := s.list.map fun d => if d.addr = e.addr then e else d }

def insert (s : Space nameMax) (e : Entry nameMax) : Space nameMax :=
  { s with
    list := e :: s.list
    held := Function.update s.held e.addr (s.held e.addr + 1)
    created := s.created + 1 }

def delete (s : Space nameMax) (e : Entry nameMax) : Space nameMax :=
  { s with
    list := s.list.eraseP fun d => d.addr = e.addr
    freed := s.freed ++ [e] }

def reopen (s : Space nameMax) (e : Entry nameMax) : Space nameMax :=
  { s with held := Function.update s.held e.addr (s.held e.addr + 1) }.setEntry
    { e with refcount := (e.refcount + 1) % 65536 }

end Space

/-- `sem_open` and `mq_open`; `alloc` and `object` are what `rt_malloc` and `rt_sem_create` or
`rt_mq_create` return. -/
def openName (find : List (Entry nameMax) → Option (Entry nameMax)) (s : Space nameMax)
    (name : Name nameMax) (flags : Flags) (alloc object : Option UInt32) :
    Option UInt32 × Space nameMax :=
  if flags.creat then
    if flags.excl ∧ (find s.list).isSome then (none, s)
    else
      match alloc, object with
      | some addr, some object => (some addr, s.insert ⟨addr, 1, false, object, name⟩)
      | _, _ => (none, s)
  else
    match find s.list with
    | some e => (some e.addr, s.reopen e)
    | none => (none, s)

def closeName (s : Space nameMax) (addr : UInt32) : Space nameMax :=
  match s.list.find? fun e => e.addr = addr with
  | none => s
  | some e =>
    let e := { e with refcount := (e.refcount + 65535) % 65536 }
    let s := { s with held := Function.update s.held addr (s.held addr - 1) }.setEntry e
    if e.refcount = 0 ∧ e.unlinked = true then s.delete e else s

def unlinkName (find : List (Entry nameMax) → Option (Entry nameMax)) (s : Space nameMax) :
    ℤ × Space nameMax :=
  match find s.list with
  | some e =>
    let e := { e with unlinked := true }
    (0, if e.refcount = 0 then (s.setEntry e).delete e else s.setEntry e)
  | none => (-1, s)

def semOpen (behind : UInt32 → List UInt8) (s : Space nameMax) (name : Name nameMax)
    (flags : Flags) (alloc object : Option UInt32) : Option UInt32 × Space nameMax :=
  openName (posixSemFind behind name) s name flags alloc object

def mqOpen (s : Space nameMax) (name : Name nameMax) (flags : Flags)
    (alloc object : Option UInt32) : Option UInt32 × Space nameMax :=
  openName (posixMqFind name) s name flags alloc object

def semClose (s : Space nameMax) (addr : UInt32) : Space nameMax := closeName s addr

def mqClose (s : Space nameMax) (addr : UInt32) : Space nameMax := closeName s addr

def semUnlink (behind : UInt32 → List UInt8) (s : Space nameMax) (name : Name nameMax) :
    ℤ × Space nameMax := unlinkName (posixSemFind behind name) s

def mqUnlink (s : Space nameMax) (name : Name nameMax) : ℤ × Space nameMax :=
  unlinkName (posixMqFind name) s

inductive Kind where
  | semaphore
  | queue
  deriving DecidableEq

inductive Call (nameMax : ℕ) where
  | openName (name : Name nameMax) (flags : Flags) (alloc object : Option UInt32)
      (behind : UInt32 → List UInt8)
  | close (addr : UInt32)
  | unlink (name : Name nameMax) (behind : UInt32 → List UInt8)

inductive Reply where
  | pointer (p : Option UInt32)
  | code (c : ℤ)
  deriving DecidableEq

/-- Memory which `rt_malloc` returns is not in use, and a structure is closed as often as it was
opened. -/
def Call.Enabled (s : Space nameMax) : Call nameMax → Prop
  | .openName _ _ alloc _ _ => ∀ addr ∈ alloc, addr ≠ 0 ∧ ∀ e ∈ s.list, e.addr ≠ addr
  | .close addr => 0 < s.held addr
  | .unlink _ _ => True

def execute (kind : Kind) (s : Space nameMax) : Call nameMax → Reply × Space nameMax
  | .openName name flags alloc object behind =>
    match kind with
    | .semaphore => ((semOpen behind s name flags alloc object).map .pointer id)
    | .queue => ((mqOpen s name flags alloc object).map .pointer id)
  | .close addr =>
    match kind with
    | .semaphore => (.code 0, semClose s addr)
    | .queue => (.code 0, mqClose s addr)
  | .unlink name behind =>
    match kind with
    | .semaphore => ((semUnlink behind s name).map .code id)
    | .queue => ((mqUnlink s name).map .code id)

def spaceSystem (nameMax : ℕ) (kind : Kind) : TransitionSystem (Space nameMax) (Call nameMax) where
  init s := s.list = [] ∧ (∀ addr, s.held addr = 0) ∧ s.freed = [] ∧ s.created = 0
  step s call s' := call.Enabled s ∧ s' = (execute kind s call).2

end RtThread.PosixNames
