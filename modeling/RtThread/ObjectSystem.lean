import Mathlib.Data.List.Find
import RtThread.RingFamily

/-!
# The object system

Every kernel object is linked into a list of its class, in the container of the
kernel or of the module whose thread made it, and is found there by its name.
What the heap returns for a new object is part of the call.
-/

namespace RtThread.Objects

open Function List

def RT_Object_Class_Static : BitVec 8 := 0x80#8

def RT_OBJECT_FLAG_MODULE : BitVec 8 := 0x80#8

def RT_ERROR : ℤ := 1

structure ObjectConfig where
  /-- `RT_Object_Class_Unknown`: the number of classes that are configured. -/
  unknown : ℕ
  /-- `RT_Object_Class_Module` -/
  moduleClass : ℕ
  /-- `RT_Object_Class_Device` -/
  deviceClass : ℕ
  /-- `RT_NAME_MAX` -/
  nameMax : ℕ
  unknown_le : unknown ≤ 11

/-- An object information, of the kernel or of a module, or an object. -/
inductive Node (Obj Mod : Type)
  | information (self : Option Mod) (type : ℕ)
  | object (o : Obj)
  deriving DecidableEq

structure RtObject (Mod : Type) where
  name : List UInt8
  type : BitVec 8
  flag : BitVec 8
  moduleId : Option Mod

structure ObjectState (Obj Mod : Type) where
  lists : Links (Node Obj Mod)
  objects : Obj → RtObject Mod

variable {Obj Mod : Type}

def rtStrncpy : ℕ → List UInt8 → List UInt8
  | 0, _ => []
  | n + 1, s => if s.headD 0 = 0 then List.replicate (n + 1) 0 else s.headD 0 :: rtStrncpy n s.tail

/-- The difference of the first characters that differ, as a signed character. -/
def rtStrncmp : ℕ → List UInt8 → List UInt8 → ℤ
  | 0, _, _ => 0
  | count + 1, cs, ct =>
    if cs.headD 0 ≠ ct.headD 0 ∨ cs.headD 0 = 0 then
      ((cs.headD 0).toBitVec - (ct.headD 0).toBitVec).toInt
    else rtStrncmp count cs.tail ct.tail

section Operations

variable [DecidableEq Obj] [DecidableEq Mod] (cfg : ObjectConfig) (s : ObjectState Obj Mod)

def rtObjectInit (self : Option Mod) (o : Obj) (type : ℕ) (name : List UInt8) :
    ObjectState Obj Mod where
  objects := update s.objects o { s.objects o with
    type := BitVec.ofNat 8 type ||| RT_Object_Class_Static
    name := rtStrncpy cfg.nameMax name }
  lists := s.lists.insertAfter (.information self type) (.object o)

def rtObjectDetach (o : Obj) : ObjectState Obj Mod :=
  { s with lists := s.lists.remove (.object o) }

/-- The information a new object is put behind: modules are managed by the kernel. -/
def allocInformation (self : Option Mod) (type : ℕ) : Option Mod :=
  if type = cfg.moduleClass then none else self

def rtObjectAllocate (self : Option Mod) (object : Option Obj) (type : ℕ) (name : List UInt8) :
    ObjectState Obj Mod × Option Obj :=
  match object with
  | none => (s, none)
  | some o =>
    ({ objects := update s.objects o
        { name := rtStrncpy cfg.nameMax name
          type := BitVec.ofNat 8 type
          flag := if self.isSome then RT_OBJECT_FLAG_MODULE else 0#8
          moduleId := self }
       lists := s.lists.insertAfter (.information (allocInformation cfg self type) type)
        (.object o) }, some o)

def rtObjectIsSystemobject (o : Obj) : Bool := (s.objects o).type &&& RT_Object_Class_Static != 0

/-- The state, and the module that is asked to free the object; none when it is the kernel. -/
def rtObjectDelete (o : Obj) : Option (ObjectState Obj Mod × Option Mod) :=
  if rtObjectIsSystemobject s o then none
  else some (rtObjectDetach s o,
    if (s.objects o).flag &&& RT_OBJECT_FLAG_MODULE ≠ 0 then (s.objects o).moduleId else none)

def nodeTest (name : List UInt8) : Node Obj Mod → Bool
  | .information _ _ => false
  | .object o => rtStrncmp cfg.nameMax (s.objects o).name name = 0

/-- The loop over the list of a class, for at most `n` nodes. -/
def findLoop (name : List UInt8) (type n : ℕ) : Option (Option (Node Obj Mod)) :=
  search s.lists.next (.information none type) (nodeTest cfg s name) n
    (s.lists.next (.information none type))

def Node.toObject : Node Obj Mod → Option Obj
  | .information _ _ => none
  | .object o => some o

/-- There is no container behind the last class, which the check lets pass. -/
def rtObjectFind (name : Option (List UInt8)) (type n : ℕ) : Option (Option Obj) :=
  match name with
  | none => some none
  | some name =>
    if cfg.unknown < type then some none
    else if type = cfg.unknown then none
    else (findLoop cfg s name type n).map (·.bind Node.toObject)

def rtDeviceFind (name : List UInt8) (n : ℕ) : Option (Option Obj) :=
  (findLoop cfg s name cfg.deviceClass n).map (·.bind Node.toObject)

def rtDeviceRegister (self : Option Mod) (o : Option Obj) (name : List UInt8) (n : ℕ) :
    Option (ObjectState Obj Mod × ℤ) :=
  match o with
  | none => some (s, -RT_ERROR)
  | some o => (rtDeviceFind cfg s name n).map fun found =>
    if found.isSome then (s, -RT_ERROR) else (rtObjectInit cfg s self o cfg.deviceClass name, 0)

def rtDeviceUnregister (o : Obj) : ObjectState Obj Mod × ℤ := (rtObjectDetach s o, 0)

end Operations

inductive Call (Obj Mod : Type)
  | init (self : Option Mod) (o : Obj) (type : ℕ) (name : List UInt8)
  | detach (o : Obj)
  | allocate (self : Option Mod) (object : Option Obj) (type : ℕ) (name : List UInt8)
  | delete (o : Obj)

/-- What was said of an object when it was made. -/
structure Entry (Obj Mod : Type) where
  object : Obj
  name : List UInt8
  static : Bool
  owner : Option Mod

/-- The objects of every information, the newest first. -/
abbrev Registry (Obj Mod : Type) := Option Mod × ℕ → List (Entry Obj Mod)

namespace Registry

variable [DecidableEq Obj] [DecidableEq Mod]

def add (reg : Registry Obj Mod) (self : Option Mod) (type : ℕ) (entry : Entry Obj Mod) :
    Registry Obj Mod :=
  update reg (self, type) (entry :: reg (self, type))

def drop (reg : Registry Obj Mod) (o : Obj) : Registry Obj Mod :=
  fun h => (reg h).filter fun entry => entry.object ≠ o

omit [DecidableEq Obj] in
theorem mem_add {reg : Registry Obj Mod} {self : Option Mod} {type : ℕ} {entry e : Entry Obj Mod}
    {h : Option Mod × ℕ} (he : e ∈ reg.add self type entry h) :
    e ∈ reg h ∨ e = entry ∧ h.2 = type := by
  unfold add at he
  by_cases hh : h = (self, type)
  · subst hh
    rw [update_self, mem_cons] at he
    rcases he with rfl | he
    · exact .inr ⟨rfl, rfl⟩
    · exact .inl he
  · rw [update_of_ne hh] at he
    exact .inl he

def step (cfg : ObjectConfig) (reg : Registry Obj Mod) : Call Obj Mod → Registry Obj Mod
  | .init self o type name => reg.add self type ⟨o, name, true, none⟩
  | .detach o => reg.drop o
  | .allocate _ none _ _ => reg
  | .allocate self (some o) type name =>
    reg.add (allocInformation cfg self type) type ⟨o, name, false, self⟩
  | .delete o => reg.drop o

/-- The object that is found by a name: the newest one of the kernel with its first characters. -/
def find (cfg : ObjectConfig) (reg : Registry Obj Mod) (type : ℕ) (name : List UInt8) :
    Option Obj :=
  ((reg (none, type)).find? fun entry =>
    entry.name.take cfg.nameMax = name.take cfg.nameMax).map Entry.object

/-- An object that is made is not yet registered, and one that is taken away is registered;
what is deleted was allocated. -/
def Legal (cfg : ObjectConfig) (reg : Registry Obj Mod) : Call Obj Mod → Prop
  | .init _ o type name | .allocate _ (some o) type name =>
    type < cfg.unknown ∧ 0 ∉ name ∧ ∀ h, ∀ entry ∈ reg h, entry.object ≠ o
  | .allocate _ none _ _ => True
  | .detach o => ∃ h, ∃ entry ∈ reg h, entry.object = o
  | .delete o => ∃ h, ∃ entry ∈ reg h, entry.object = o ∧ entry.static = false

def LegalRun (cfg : ObjectConfig) : Registry Obj Mod → List (Call Obj Mod) → Prop
  | _, [] => True
  | reg, call :: calls => reg.Legal cfg call ∧ LegalRun cfg (reg.step cfg call) calls

end Registry

def Call.step [DecidableEq Obj] [DecidableEq Mod] (cfg : ObjectConfig) (s : ObjectState Obj Mod) :
    Call Obj Mod → Option (ObjectState Obj Mod)
  | .init self o type name => some (rtObjectInit cfg s self o type name)
  | .detach o => some (rtObjectDetach s o)
  | .allocate self object type name => some (rtObjectAllocate cfg s self object type name).1
  | .delete o => (rtObjectDelete s o).map Prod.fst

section Strings

variable {name t : List UInt8} {n : ℕ}

theorem toInt_sub_eq_zero (c d : UInt8) : (c.toBitVec - d.toBitVec).toInt = 0 ↔ c = d := by
  rw [← BitVec.toInt_zero (w := 8), BitVec.toInt_inj, UInt8.toBitVec_inj.symm]
  constructor
  · intro h
    bv_omega
  · intro h
    bv_omega

theorem headD_eq_zero_iff (hname : 0 ∉ name) : name.headD 0 = 0 ↔ name = [] := by
  cases name with
  | nil => simp
  | cons c rest =>
    have hc : c ≠ 0 := fun heq => hname (heq ▸ mem_cons_self)
    simpa using hc

/-- A name that was cut is found by every name with the same first characters. -/
theorem rtStrncmp_rtStrncpy (hname : 0 ∉ name) (ht : 0 ∉ t) :
    rtStrncmp n (rtStrncpy n name) t = 0 ↔ name.take n = t.take n := by
  induction n generalizing name t with
  | zero => simp [rtStrncmp]
  | succ n ih =>
    cases name with
    | nil =>
      have hfield : (rtStrncpy (n + 1) []).headD 0 = 0 := rfl
      rw [rtStrncmp, if_pos (.inr hfield), hfield, toInt_sub_eq_zero, eq_comm,
        headD_eq_zero_iff ht, take_nil]
      cases t <;> simp
    | cons c rest =>
      have hc : c ≠ 0 := fun heq => hname (heq ▸ mem_cons_self)
      have hfield : rtStrncpy (n + 1) (c :: rest) = c :: rtStrncpy n rest := if_neg hc
      rw [hfield, rtStrncmp]
      by_cases hhead : c = t.headD 0
      · obtain ⟨d, t, rfl⟩ : ∃ d t', t = d :: t' := by
          cases t with
          | nil => contradiction
          | cons d t => exact ⟨d, t, rfl⟩
        obtain rfl : c = d := hhead
        rw [if_neg (by simpa using hc)]
        simpa using ih (fun h => hname (mem_cons_of_mem c h))
          fun h => ht (mem_cons_of_mem c h)
      · rw [headD_cons, if_pos (.inl hhead), toInt_sub_eq_zero]
        refine iff_of_false hhead fun heq => hhead ?_
        cases t with
        | nil => simp at heq
        | cons d t => exact (cons.inj heq).1

end Strings

def headNode (h : Option Mod × ℕ) : Node Obj Mod := .information h.1 h.2

def Entry.node (entry : Entry Obj Mod) : Node Obj Mod := .object entry.object

/-- The object is what its entry says. -/
structure Shows (cfg : ObjectConfig) (object : RtObject Mod) (type : ℕ) (entry : Entry Obj Mod) :
    Prop where
  name : object.name = rtStrncpy cfg.nameMax entry.name
  type : object.type =
    BitVec.ofNat 8 type ||| (if entry.static then RT_Object_Class_Static else 0#8)
  owner : entry.static = false → object.moduleId = entry.owner ∧
    object.flag = if entry.owner.isSome then RT_OBJECT_FLAG_MODULE else 0#8

/-- The linked containers hold what the registry says. -/
structure Refines (cfg : ObjectConfig) (s : ObjectState Obj Mod) (reg : Registry Obj Mod) :
    Prop where
  rings : Rings s.lists headNode fun h => (reg h).map Entry.node
  shows : ∀ h, ∀ entry ∈ reg h, Shows cfg (s.objects entry.object) h.2 entry
  named : ∀ h, ∀ entry ∈ reg h, 0 ∉ entry.name
  known : ∀ h, ∀ entry ∈ reg h, h.2 < cfg.unknown

namespace Refines

variable [DecidableEq Obj] [DecidableEq Mod] {cfg : ObjectConfig} {s : ObjectState Obj Mod}
  {reg : Registry Obj Mod} {h : Option Mod × ℕ} {entry : Entry Obj Mod} {o : Obj}

omit [DecidableEq Obj] [DecidableEq Mod] in
theorem start (objects : Obj → RtObject Mod) :
    Refines cfg ⟨⟨id, id⟩, objects⟩ (fun _ => [] : Registry Obj Mod) where
  rings := Rings.empty fun h h' heq => by
    simpa [headNode, Prod.ext_iff] using heq
  shows := nofun
  named := nofun
  known := nofun

theorem add (entry : Entry Obj Mod) {self : Option Mod} {type : ℕ} {object : RtObject Mod}
    (hs : Refines cfg s reg) (htype : type < cfg.unknown) (hname : 0 ∉ entry.name)
    (hfresh : ∀ h, ∀ e ∈ reg h, e.object ≠ entry.object) (hshows : Shows cfg object type entry) :
    Refines cfg ⟨s.lists.insertAfter (.information self type) (.object entry.object),
      update s.objects entry.object object⟩ (reg.add self type entry) := by
  constructor
  · have hrings := hs.rings.insertAfter (self, type) (n := .object entry.object) fun h hin => by
      rcases mem_cons.mp hin with heq | hin
      · cases heq
      · obtain ⟨e, he, heq⟩ := mem_map.mp hin
        exact hfresh h e he (Node.object.inj heq)
    have hlists : (fun h => (reg.add self type entry h).map Entry.node) =
        update (fun h => (reg h).map Entry.node) (self, type)
          (entry.node :: (reg (self, type)).map Entry.node) := by
      funext h
      unfold Registry.add
      by_cases hh : h = (self, type)
      · subst hh
        rw [update_self, update_self, map_cons]
      · rw [update_of_ne hh, update_of_ne hh]
    rw [hlists]
    exact hrings
  · intro h e he
    dsimp only
    rcases Registry.mem_add he with hold | ⟨rfl, rfl⟩
    · rw [update_of_ne (hfresh h e hold)]
      exact hs.shows h e hold
    · rwa [update_self]
  · intro h e he
    rcases Registry.mem_add he with hold | ⟨rfl, -⟩
    · exact hs.named h e hold
    · exact hname
  · intro h e he
    rcases Registry.mem_add he with hold | ⟨-, htypeEq⟩
    · exact hs.known h e hold
    · rwa [htypeEq]

theorem drop (hs : Refines cfg s reg) (hin : ∃ entry ∈ reg h, entry.object = o) :
    Refines cfg (rtObjectDetach s o) (reg.drop o) where
  rings := by
    obtain ⟨entry, hentry, rfl⟩ := hin
    have hrings := hs.rings.remove (n := .object entry.object)
      (mem_map.mpr ⟨entry, hentry, rfl⟩)
    have hlists : (fun h => (reg.drop entry.object h).map Entry.node) = fun h =>
        ((reg h).map Entry.node).filter (· ≠ .object entry.object) := by
      funext h
      rw [filter_map]
      exact congrArg _ (filter_congr fun e _ => by simp [Entry.node])
    rw [hlists]
    exact hrings
  shows h e he := hs.shows h e (mem_filter.mp he).1
  named h e he := hs.named h e (mem_filter.mp he).1
  known h e he := hs.known h e (mem_filter.mp he).1

theorem static_bit : ∀ type < 11, ∀ b : Bool, (BitVec.ofNat 8 type |||
    (if b then RT_Object_Class_Static else 0#8)) &&& RT_Object_Class_Static != 0 ↔ b = true := by
  decide

omit [DecidableEq Obj] [DecidableEq Mod] in
theorem isSystemobject (hs : Refines cfg s reg) (hentry : entry ∈ reg h) :
    rtObjectIsSystemobject s entry.object = entry.static := by
  have hbit := static_bit h.2 ((hs.known h entry hentry).trans_le cfg.unknown_le) entry.static
  unfold rtObjectIsSystemobject
  rw [(hs.shows h entry hentry).type, Bool.eq_iff_iff]
  exact hbit

section

variable (hs : Refines cfg s reg)
include hs

theorem delete (hentry : entry ∈ reg h) (hstatic : entry.static = false) :
    rtObjectDelete s entry.object = some (rtObjectDetach s entry.object, entry.owner) := by
  obtain ⟨hmodule, hflag⟩ := (hs.shows h entry hentry).owner hstatic
  unfold rtObjectDelete
  rw [hs.isSystemobject hentry, hstatic, hmodule, hflag]
  cases entry.owner <;> simp [RT_OBJECT_FLAG_MODULE]

theorem findLoop {name : List UInt8} (hname : 0 ∉ name) {type n : ℕ}
    (hn : (reg (none, type)).length < n) :
    (Objects.findLoop cfg s name type n).map (·.bind Node.toObject) =
      some (reg.find cfg type name) := by
  have hsearch := hs.rings.search_eq (h := (none, type)) (nodeTest cfg s name) n
    (by rwa [length_map])
  have htest : ∀ entry ∈ reg (none, type), nodeTest cfg s name entry.node =
      decide (entry.name.take cfg.nameMax = name.take cfg.nameMax) := by
    intro entry hentry
    change decide (rtStrncmp cfg.nameMax (s.objects entry.object).name name = 0) = _
    rw [(hs.shows _ entry hentry).name]
    exact decide_eq_decide.mpr (rtStrncmp_rtStrncpy (hs.named _ entry hentry) hname)
  unfold Objects.findLoop
  refine (congrArg _ hsearch).trans ?_
  rw [find?_map, Option.map_some]
  have hfind : (reg (none, type)).find? (nodeTest cfg s name ∘ Entry.node) =
      (reg (none, type)).find? fun entry =>
        decide (entry.name.take cfg.nameMax = name.take cfg.nameMax) :=
    find?_congr htest
  unfold Registry.find
  rw [hfind]
  cases (reg (none, type)).find? _ <;> rfl

theorem find {name : List UInt8} (hname : 0 ∉ name) {type n : ℕ}
    (htype : type < cfg.unknown) (hn : (reg (none, type)).length < n) :
    rtObjectFind cfg s (some name) type n = some (reg.find cfg type name) := by
  unfold rtObjectFind
  dsimp only
  rw [if_neg (by lia), if_neg (by lia)]
  exact hs.findLoop hname hn

theorem step {call : Call Obj Mod} (hlegal : reg.Legal cfg call) :
    ∃ s', call.step cfg s = some s' ∧ Refines cfg s' (reg.step cfg call) := by
  cases call with
  | init self o type name =>
    obtain ⟨htype, hname, hfresh⟩ := hlegal
    exact ⟨_, rfl, hs.add ⟨o, name, true, none⟩ htype hname hfresh
      ⟨rfl, rfl, fun h => Bool.noConfusion h⟩⟩
  | detach o =>
    obtain ⟨h, hin⟩ := hlegal
    exact ⟨_, rfl, hs.drop hin⟩
  | allocate self object type name =>
    cases object with
    | none => exact ⟨s, rfl, hs⟩
    | some o =>
      obtain ⟨htype, hname, hfresh⟩ := hlegal
      exact ⟨_, rfl, hs.add ⟨o, name, false, self⟩ htype hname hfresh
        ⟨rfl, (BitVec.or_zero).symm, fun _ => ⟨rfl, rfl⟩⟩⟩
  | delete o =>
    obtain ⟨h, entry, hentry, rfl, hstatic⟩ := hlegal
    refine ⟨rtObjectDetach s entry.object, ?_, hs.drop ⟨entry, hentry, rfl⟩⟩
    exact congrArg (Option.map Prod.fst) (hs.delete hentry hstatic)

end

end Refines

variable [DecidableEq Obj] [DecidableEq Mod] {cfg : ObjectConfig} {reg : Registry Obj Mod}

/-- A legal run on the linked lists follows the registry. -/
theorem Refines.run {s : ObjectState Obj Mod} {calls : List (Call Obj Mod)} (hs : Refines cfg s reg)
    (hlegal : reg.LegalRun cfg calls) : ∃ s', calls.foldlM (Call.step cfg) s = some s' ∧
      Refines cfg s' (calls.foldl (Registry.step cfg) reg) := by
  induction calls generalizing s reg with
  | nil => exact ⟨s, rfl, hs⟩
  | cons call calls ih =>
    obtain ⟨s₁, hstep, hs₁⟩ := hs.step hlegal.1
    obtain ⟨s', hrun, hs'⟩ := ih hs₁ hlegal.2
    refine ⟨s', ?_, hs'⟩
    rw [foldlM_cons, hstep]
    exact hrun

/-- After every legal run from the empty containers an object is found by its name exactly as
the registry tells, static objects are told from allocated ones, and a deleted object goes
back to the module that allocated it. -/
theorem run_registry (cfg : ObjectConfig) (objects : Obj → RtObject Mod)
    (calls : List (Call Obj Mod)) (hlegal : Registry.LegalRun cfg (fun _ => []) calls) : ∃ s,
    calls.foldlM (Call.step cfg) ⟨⟨id, id⟩, objects⟩ = some s ∧
      let reg := calls.foldl (Registry.step cfg) (fun _ => [])
      (∀ name type n, 0 ∉ name → type < cfg.unknown → (reg (none, type)).length < n →
        rtObjectFind cfg s (some name) type n = some (reg.find cfg type name)) ∧
      ∀ h, ∀ entry ∈ reg h, rtObjectIsSystemobject s entry.object = entry.static ∧
        (entry.static = false → rtObjectDelete s entry.object =
          some (rtObjectDetach s entry.object, entry.owner)) := by
  obtain ⟨s, hrun, hs⟩ := (Refines.start objects).run hlegal
  exact ⟨s, hrun, fun name type n hname htype hn => hs.find hname htype hn,
    fun h entry hentry => ⟨hs.isSystemobject hentry, hs.delete hentry⟩⟩

def allClasses : ObjectConfig := ⟨11, 10, 8, 8, le_rfl⟩

def blankObject : RtObject ℕ := ⟨[], 0#8, 0#8, none⟩

theorem run_registry_sample : ∃ s, [Call.init none 0 1 [0x61], .allocate none (some 1) 1
      [0x61]].foldlM (Call.step allClasses) (⟨⟨id, id⟩, fun _ : ℕ => blankObject⟩) = some s ∧
    rtObjectFind allClasses s (some [0x61]) 1 3 = some (some 1) := by
  obtain ⟨s, hrun, hfind, -⟩ := run_registry allClasses (fun _ => blankObject)
    [.init none 0 1 [0x61], .allocate none (some 1) 1 [0x61]]
    ⟨⟨by decide, by decide, nofun⟩,
      ⟨by decide, by decide, fun h entry hentry => by
        rcases Registry.mem_add hentry with hold | ⟨rfl, -⟩
        · cases hold
        · decide⟩, trivial⟩
  exact ⟨s, hrun, hfind [0x61] 1 3 (by decide) (by decide) (by decide)⟩

section Devices

/-- A device is registered by a thread of the kernel or of a module. -/
inductive DeviceCall (Obj Mod : Type)
  | register (self : Option Mod) (o : Obj) (name : List UInt8)
  | unregister (o : Obj)

def DeviceCall.step (cfg : ObjectConfig) (n : ℕ) (s : ObjectState Obj Mod) :
    DeviceCall Obj Mod → Option (ObjectState Obj Mod)
  | .register self o name => (rtDeviceRegister cfg s self (some o) name n).map Prod.fst
  | .unregister o => some (rtDeviceUnregister s o).1

namespace Registry

/-- A device is refused when its name is taken by a device of the kernel. -/
def deviceStep (cfg : ObjectConfig) (reg : Registry Obj Mod) :
    DeviceCall Obj Mod → Registry Obj Mod
  | .register self o name =>
    if (reg.find cfg cfg.deviceClass name).isSome then reg
    else reg.add self cfg.deviceClass ⟨o, name, true, none⟩
  | .unregister o => reg.drop o

def LegalDevices (cfg : ObjectConfig) : Registry Obj Mod → List (DeviceCall Obj Mod) → Prop
  | _, [] => True
  | reg, .register self o name :: calls => (0 ∉ name ∧ ∀ h, ∀ entry ∈ reg h, entry.object ≠ o) ∧
      LegalDevices cfg (reg.deviceStep cfg (.register self o name)) calls
  | reg, .unregister o :: calls => (∃ self, ∃ entry ∈ reg (self, cfg.deviceClass),
      entry.object = o) ∧ LegalDevices cfg (reg.deviceStep cfg (.unregister o)) calls

/-- No two devices of the kernel have the same first characters. -/
def DevicesApart (cfg : ObjectConfig) (reg : Registry Obj Mod) : Prop :=
  (reg (none, cfg.deviceClass)).Pairwise fun entry entry' =>
    entry.name.take cfg.nameMax ≠ entry'.name.take cfg.nameMax

omit [DecidableEq Obj] [DecidableEq Mod] in
theorem find_of_apart {entry : Entry Obj Mod} (hapart : reg.DevicesApart cfg)
    (hentry : entry ∈ reg (none, cfg.deviceClass)) :
    reg.find cfg cfg.deviceClass entry.name = some entry.object := by
  unfold find DevicesApart at *
  generalize reg (none, cfg.deviceClass) = entries at hapart hentry
  induction entries with
  | nil => cases hentry
  | cons first rest ih =>
    obtain ⟨hfirst, hrest⟩ := pairwise_cons.mp hapart
    rcases mem_cons.mp hentry with rfl | hmem
    · rw [find?_cons_of_pos (by simp)]
      rfl
    · rw [find?_cons_of_neg (by simpa using hfirst entry hmem)]
      exact ih hrest hmem

end Registry

omit [DecidableEq Obj] [DecidableEq Mod] in
/-- An object is registered in one list only, and the search goes through the kernel's. -/
theorem Refines.not_found {s : ObjectState Obj Mod} (hs : Refines cfg s reg) {m : Mod} {type : ℕ}
    {entry : Entry Obj Mod} (hentry : entry ∈ reg (some m, type)) (name : List UInt8) :
    reg.find cfg type name ≠ some entry.object := by
  intro hfind
  obtain ⟨found, hfound, hobject⟩ := Option.map_eq_some_iff.mp hfind
  have hnode : entry.node = found.node := congrArg Node.object hobject.symm
  have hsame := hs.rings.apart (some m, type) (none, type) entry.node
    (mem_cons_of_mem _ (mem_map_of_mem hentry))
    (hnode ▸ mem_cons_of_mem _ (mem_map_of_mem (mem_of_find?_eq_some hfound)))
  cases hsame

omit [DecidableEq Obj] in
theorem Registry.length_add_le (reg : Registry Obj Mod) (self : Option Mod) (type : ℕ)
    (entry : Entry Obj Mod) (h : Option Mod × ℕ) : (reg.add self type entry h).length ≤ (reg h).length + 1 := by
  unfold Registry.add
  by_cases hh : h = (self, type)
  · rw [hh, update_self, length_cons]
  · rw [update_of_ne hh]
    exact Nat.le_succ _

omit [DecidableEq Obj] in
theorem Registry.DevicesApart.add {self : Option Mod} {o : Obj} {name : List UInt8}
    (hapart : reg.DevicesApart cfg) (hfree : reg.find cfg cfg.deviceClass name = none) :
    (reg.add self cfg.deviceClass ⟨o, name, true, none⟩).DevicesApart cfg := by
  unfold Registry.DevicesApart Registry.add
  cases self with
  | none =>
    rw [update_self]
    refine pairwise_cons.mpr ⟨fun entry hentry => ?_, hapart⟩
    have hnone := find?_eq_none.mp (Option.map_eq_none_iff.mp hfree) entry hentry
    simpa using fun heq => hnone (by simpa using heq.symm)
  | some m =>
    rw [update_of_ne (by simp)]
    exact hapart

theorem Refines.deviceStep {s : ObjectState Obj Mod} {call : DeviceCall Obj Mod}
    {calls : List (DeviceCall Obj Mod)} {n : ℕ} (hs : Refines cfg s reg)
    (hdevice : cfg.deviceClass < cfg.unknown) (hapart : reg.DevicesApart cfg)
    (hlegal : reg.LegalDevices cfg (call :: calls))
    (hn : (reg (none, cfg.deviceClass)).length + calls.length + 1 < n) :
    ∃ s', call.step cfg n s = some s' ∧ Refines cfg s' (reg.deviceStep cfg call) ∧
      (reg.deviceStep cfg call).DevicesApart cfg ∧
      (reg.deviceStep cfg call).LegalDevices cfg calls ∧
      (reg.deviceStep cfg call (none, cfg.deviceClass)).length + calls.length < n := by
  cases call with
  | register self o name =>
    obtain ⟨⟨hname, hfresh⟩, hrest⟩ := hlegal
    have hfind : rtDeviceFind cfg s name n = some (reg.find cfg cfg.deviceClass name) :=
      hs.findLoop hname (by lia)
    unfold DeviceCall.step rtDeviceRegister
    simp only [hfind, Option.map_some]
    unfold Registry.deviceStep at hrest ⊢
    cases htaken : reg.find cfg cfg.deviceClass name with
    | some other =>
      simp only [htaken, Option.isSome_some, if_true] at hrest ⊢
      exact ⟨s, rfl, hs, hapart, hrest, by lia⟩
    | none =>
      simp only [htaken, Option.isSome_none, Bool.false_eq_true, if_false] at hrest ⊢
      refine ⟨_, rfl, hs.add ⟨o, name, true, none⟩ hdevice hname hfresh
        ⟨rfl, rfl, fun h => Bool.noConfusion h⟩, hapart.add htaken, hrest, ?_⟩
      have hle := Registry.length_add_le reg self cfg.deviceClass ⟨o, name, true, none⟩
        (none, cfg.deviceClass)
      lia
  | unregister o =>
    obtain ⟨⟨self, hin⟩, hrest⟩ := hlegal
    refine ⟨_, rfl, hs.drop hin, List.Pairwise.filter _ hapart, hrest, ?_⟩
    have hle := length_filter_le (fun entry : Entry Obj Mod => decide (entry.object ≠ o))
      (reg (none, cfg.deviceClass))
    exact lt_of_le_of_lt (Nat.add_le_add_right hle _) (by lia)

/-- However threads of the kernel and of modules register and unregister devices, no two devices
of the kernel share the first characters of their names and each is found by its own name, while
a device that a module's thread registered is found by no name. -/
theorem devices_found {s : ObjectState Obj Mod} (calls : List (DeviceCall Obj Mod)) (n : ℕ)
    (hs : Refines cfg s reg) (hdevice : cfg.deviceClass < cfg.unknown)
    (hnone : reg (none, cfg.deviceClass) = []) (hlegal : reg.LegalDevices cfg calls)
    (hn : calls.length < n) : ∃ s', calls.foldlM (DeviceCall.step cfg n) s = some s' ∧
      let reg' := calls.foldl (Registry.deviceStep cfg) reg
      reg'.DevicesApart cfg ∧
      (∀ entry ∈ reg' (none, cfg.deviceClass),
        rtDeviceFind cfg s' entry.name n = some (some entry.object)) ∧
      ∀ m, ∀ entry ∈ reg' (some m, cfg.deviceClass), ∀ name, 0 ∉ name →
        rtDeviceFind cfg s' name n ≠ some (some entry.object) := by
  have hapart : reg.DevicesApart cfg := by
    unfold Registry.DevicesApart
    rw [hnone]
    exact Pairwise.nil
  have hn : (reg (none, cfg.deviceClass)).length + calls.length < n := by
    rw [hnone]
    simpa using hn
  clear hnone
  induction calls generalizing s reg with
  | nil =>
    refine ⟨s, rfl, hapart, fun entry hentry => ?_, fun m entry hentry name hname hfind => ?_⟩
    · exact (hs.findLoop (hs.named _ entry hentry) hn).trans
        (congrArg some (Registry.find_of_apart hapart hentry))
    · rw [rtDeviceFind, hs.findLoop hname hn, Option.some.injEq] at hfind
      exact hs.not_found hentry name hfind
  | cons call calls ih =>
    obtain ⟨s₁, hstep, hs₁, hapart₁, hlegal₁, hn₁⟩ := hs.deviceStep hdevice hapart hlegal hn
    obtain ⟨s', hrun, hs'⟩ := ih hs₁ hlegal₁ (by lia) hapart₁ hn₁
    refine ⟨s', ?_, hs'⟩
    rw [foldlM_cons, hstep]
    exact hrun

/-- A module's device does not keep a device of the kernel from having its name. -/
theorem devices_found_sample : ∃ s, [DeviceCall.register (some 0) 0 [0x61],
      .register none 1 [0x61]].foldlM (DeviceCall.step allClasses 3)
        (⟨⟨id, id⟩, fun _ : ℕ => blankObject⟩) = some s ∧
    rtDeviceFind allClasses s [0x61] 3 = some (some 1) := by
  have hs : Refines allClasses ⟨⟨id, id⟩, fun _ : ℕ => blankObject⟩ (fun _ => []) :=
    Refines.start fun _ => blankObject
  obtain ⟨s, hrun, -, hfind, -⟩ := devices_found
    [.register (some 0) 0 [0x61], .register none 1 [0x61]] 3 hs (by decide) rfl
    ⟨⟨by decide, nofun⟩,
      ⟨by decide, fun h entry hentry => by
        change entry ∈ Registry.add (fun _ => []) (some 0) 8 ⟨0, [0x61], true, none⟩ h at hentry
        rcases Registry.mem_add hentry with hold | ⟨rfl, -⟩
        · cases hold
        · decide⟩, trivial⟩ (by decide)
  exact ⟨s, hrun, hfind ⟨1, [0x61], true, none⟩ mem_cons_self⟩

end Devices

end RtThread.Objects
