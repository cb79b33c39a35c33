import RtThread.FinshTables

/-!
# Registering and looking up system symbols

System calls and system variables are kept the same way: a static table and a
list of what was appended, the latest entry first.  The table is searched with
`strcmp`, the list with `strncmp` over the length of the name that is looked
up.  An entry whose name could not be copied stays in the list without one.
-/

namespace RtThread.Finsh

open Option

/-- An appended symbol; `rt_strdup` may have found no memory for its name. -/
structure SymbolItem (β : Type*) where
  name : Option (List Char)
  symbol : β
  deriving DecidableEq

structure SymbolTable (β : Type*) where
  table : List (List Char × β)
  list : List (SymbolItem β)

/-- A call that appends a symbol, and whether there is memory for the item and for its name. -/
structure SymbolAppend (β : Type*) where
  name : List Char
  symbol : β
  itemMemory : Bool
  nameMemory : Bool

def SymbolAppend.item {β : Type*} (call : SymbolAppend β) : Option (SymbolItem β) :=
  if call.itemMemory then
    some ⟨if call.nameMemory then some call.name else none, call.symbol⟩
  else none

inductive FoundSymbol (β : Type*)
  | table (name : List Char) (symbol : β)
  | list (item : SymbolItem β)
  deriving DecidableEq

namespace FoundSymbol

variable {β : Type*}

def name : FoundSymbol β → Option (List Char)
  | table name _ => some name
  | list item => item.name

def symbol : FoundSymbol β → β
  | table _ symbol => symbol
  | list item => item.symbol

end FoundSymbol

namespace SymbolTable

variable {β : Type*} {t : SymbolTable β} {name : List Char} {items : List (SymbolItem β)}

def append (t : SymbolTable β) (call : SymbolAppend β) : SymbolTable β :=
  if call.itemMemory then
    { t with
      list := ⟨if call.nameMemory then some call.name else none, call.symbol⟩ :: t.list }
  else t

/-- The search of the list; `none` when a missing name is compared. -/
def searchList (name : List Char) : List (SymbolItem β) → Option (Option (SymbolItem β))
  | [] => some none
  | item :: items =>
    match item.name with
    -- `strncmp` over no characters reads none.
    | none => if name = [] then some (some item) else none
    | some other => if name <+: other then some (some item) else searchList name items

def lookup (t : SymbolTable β) (name : List Char) : Option (Option (FoundSymbol β)) :=
  match t.table.find? fun entry => entry.1 = name with
  | some entry => some (some (.table entry.1 entry.2))
  | none => (searchList name t.list).map fun found => found.map .list

def Static (t : SymbolTable β) (name : List Char) : Prop :=
  ∃ entry ∈ t.table, entry.1 = name

def Registered (t : SymbolTable β) (name : List Char) : Prop :=
  t.Static name ∨ ∃ item ∈ t.list, item.name = some name

/-- A lookup that ends, and finds an entry exactly when the name is registered; the entry has the
name, and it is from the static table if the name is there. -/
def Exact (t : SymbolTable β) (name : List Char) (lookup : Option (Option (FoundSymbol β))) :
    Prop :=
  ∃ result, lookup = some result ∧ (result.isSome ↔ t.Registered name) ∧
    ∀ found ∈ result, found.name = some name ∧
      (t.Static name → ∃ entry ∈ t.table, found = .table entry.1 entry.2)

/-- An entry that stops the list search without having the name: its own name only begins with
it, or is missing. -/
def Masks (name : List Char) (item : SymbolItem β) : Prop :=
  ∀ other ∈ item.name, other ≠ name ∧ name <+: other

/-- The static table has the name, or no entry that masks it was appended after the last one
with the name. -/
def Unmasked (t : SymbolTable β) (name : List Char) : Prop :=
  t.Static name ∨ ∀ item ∈ t.list.takeWhile (fun item => item.name ≠ some name), ¬Masks name item

theorem searchList_unmasked
    (hclear : ∀ item ∈ items.takeWhile (fun item => item.name ≠ some name), ¬Masks name item) :
    searchList name items = some (items.find? fun item => item.name = some name) := by
  induction items with
  | nil => rfl
  | cons item items ih =>
    by_cases hname : item.name = some name
    · simp [searchList, hname]
    · have htake : (item :: items).takeWhile (fun item => item.name ≠ some name) =
          item :: items.takeWhile (fun item => item.name ≠ some name) := by
        simp [hname]
      rw [htake] at hclear
      have hrest := ih fun item hitem => hclear item (List.mem_cons_of_mem _ hitem)
      have hnot := hclear item List.mem_cons_self
      rw [List.find?_cons_of_neg (by simpa using hname), ← hrest, searchList]
      cases hother : item.name with
      | none => exact absurd (fun other hmem => by simp [hother] at hmem) hnot
      | some other =>
        have hstarts : ¬name <+: other := by
          intro hstart
          refine hnot fun other' hmem => ?_
          obtain rfl : other = other' := by simpa [hother] using hmem
          exact ⟨fun heq => hname (hother.trans (congrArg some heq)), hstart⟩
        simp [hstarts]

theorem searchList_masked
    (hmasked : ∃ item ∈ items.takeWhile (fun item => item.name ≠ some name), Masks name item) :
    searchList name items = none ∨
      ∃ item, searchList name items = some (some item) ∧ item.name ≠ some name := by
  induction items with
  | nil => simp at hmasked
  | cons item items ih =>
    have hname : item.name ≠ some name := by
      intro hname
      simp [hname] at hmasked
    have htake : (item :: items).takeWhile (fun item => item.name ≠ some name) =
        item :: items.takeWhile (fun item => item.name ≠ some name) := by
      simp [hname]
    rw [htake] at hmasked
    rw [searchList]
    cases hother : item.name with
    | none =>
      by_cases hempty : name = []
      · exact .inr ⟨item, by simp [hempty], hother ▸ by simp⟩
      · exact .inl (by simp [hempty])
    | some other =>
      by_cases hstarts : name <+: other
      · exact .inr ⟨item, by simp [hstarts], hname⟩
      · obtain ⟨item', hmem, hmasks⟩ := hmasked
        have hrest : item' ∈ items.takeWhile (fun item => item.name ≠ some name) := by
          rcases List.mem_cons.mp hmem with rfl | hrest
          · exact absurd (hmasks other hother).2 hstarts
          · exact hrest
        simpa [hstarts] using ih ⟨item', hrest, hmasks⟩

theorem lookup_of_not_static (hstatic : ¬t.Static name) :
    t.lookup name = (searchList name t.list).map fun found => found.map .list := by
  have hnone : (t.table.find? fun entry => entry.1 = name) = none := by
    rw [List.find?_eq_none]
    intro entry hentry hname
    exact hstatic ⟨entry, hentry, of_decide_eq_true hname⟩
  rw [lookup, hnone]

theorem exact_of_static (hstatic : t.Static name) : t.Exact name (t.lookup name) := by
  obtain ⟨entry, hmem, hname⟩ := hstatic
  have hsome : (t.table.find? fun entry => entry.1 = name).isSome :=
    List.find?_isSome.mpr ⟨entry, hmem, decide_eq_true hname⟩
  obtain ⟨first, hfirst⟩ := isSome_iff_exists.mp hsome
  have hfirstName : first.1 = name := by simpa using List.find?_some hfirst
  refine ⟨some (.table first.1 first.2), by rw [lookup, hfirst], ?_, ?_⟩
  · exact iff_of_true rfl (.inl ⟨entry, hmem, hname⟩)
  · rintro found ⟨⟩
    exact ⟨congrArg some hfirstName, fun _ => ⟨first, List.mem_of_find?_eq_some hfirst, rfl⟩⟩

/-- A name is looked up exactly unless the name of a later entry begins with it. -/
theorem exact_lookup_iff (t : SymbolTable β) (name : List Char) :
    t.Exact name (t.lookup name) ↔ t.Unmasked name := by
  by_cases hstatic : t.Static name
  · exact iff_of_true (exact_of_static hstatic) (.inl hstatic)
  · rw [Exact, lookup_of_not_static hstatic]
    by_cases hclear : ∀ item ∈ t.list.takeWhile (fun item => item.name ≠ some name),
        ¬Masks name item
    · refine iff_of_true ?_ (.inr hclear)
      rw [searchList_unmasked hclear]
      refine ⟨_, rfl, ?_, ?_⟩
      · rw [isSome_map, List.find?_isSome, Registered, or_iff_right hstatic]
        simp
      · intro found hfound
        obtain ⟨item, hitem, rfl⟩ := map_eq_some_iff.mp hfound
        have hname : item.name = some name := by simpa using List.find?_some hitem
        exact ⟨hname, fun h => absurd h hstatic⟩
    · refine iff_of_false ?_ (not_or.mpr ⟨hstatic, hclear⟩)
      push Not at hclear
      rintro ⟨result, hresult, -, hfound⟩
      rcases searchList_masked hclear with hfault | ⟨item, hitem, hname⟩
      · rw [hfault] at hresult
        cases hresult
      · rw [hitem] at hresult
        obtain rfl := some.inj hresult
        exact hname (hfound _ rfl).1

def named (nameOf : β → List Char) (table list : List β) : SymbolTable β where
  table := table.map fun symbol => (nameOf symbol, symbol)
  list := list.map fun symbol => ⟨some (nameOf symbol), symbol⟩

end SymbolTable

/-- The tables and lists of the shell: the function of a system call, the type and the address
of a system variable. -/
structure FinshSymbols where
  syscalls : SymbolTable (BitVec 32)
  sysvars : SymbolTable (FinshType × BitVec 32)

inductive AppendCall
  | syscall (call : SymbolAppend (BitVec 32))
  | sysvar (call : SymbolAppend (FinshType × BitVec 32))

namespace AppendCall

def syscallItem : AppendCall → Option (SymbolItem (BitVec 32))
  | syscall call => call.item
  | sysvar _ => none

def sysvarItem : AppendCall → Option (SymbolItem (FinshType × BitVec 32))
  | syscall _ => none
  | sysvar call => call.item

end AppendCall

namespace FinshSymbols

def start (syscallTable : List (List Char × BitVec 32))
    (sysvarTable : List (List Char × FinshType × BitVec 32)) : FinshSymbols where
  syscalls := ⟨syscallTable, []⟩
  sysvars := ⟨sysvarTable, []⟩

def finshSyscallAppend (s : FinshSymbols) (call : SymbolAppend (BitVec 32)) : FinshSymbols :=
  { s with syscalls := s.syscalls.append call }

def finshSysvarAppend (s : FinshSymbols) (call : SymbolAppend (FinshType × BitVec 32)) :
    FinshSymbols :=
  { s with sysvars := s.sysvars.append call }

def finshSyscallLookup (s : FinshSymbols) (name : List Char) :
    Option (Option (FoundSymbol (BitVec 32))) :=
  s.syscalls.lookup name

def finshSysvarLookup (s : FinshSymbols) (name : List Char) :
    Option (Option (FoundSymbol (FinshType × BitVec 32))) :=
  s.sysvars.lookup name

def append (s : FinshSymbols) : AppendCall → FinshSymbols
  | .syscall call => s.finshSyscallAppend call
  | .sysvar call => s.finshSysvarAppend call

def appendAll (s : FinshSymbols) (calls : List AppendCall) : FinshSymbols :=
  calls.foldl append s

theorem appendAll_eq (s : FinshSymbols) (calls : List AppendCall) : s.appendAll calls =
      ⟨⟨s.syscalls.table, (calls.filterMap AppendCall.syscallItem).reverse ++ s.syscalls.list⟩,
        ⟨s.sysvars.table, (calls.filterMap AppendCall.sysvarItem).reverse ++ s.sysvars.list⟩⟩ := by
  induction calls generalizing s with
  | nil => rfl
  | cons call calls ih =>
    rw [appendAll, List.foldl_cons]
    change (s.append call).appendAll calls = _
    rw [ih]
    cases call with
    | syscall call =>
      cases hmemory : call.itemMemory <;>
        simp [append, finshSyscallAppend, SymbolTable.append, List.filterMap_cons,
          AppendCall.syscallItem, AppendCall.sysvarItem, SymbolAppend.item, hmemory]
    | sysvar call =>
      cases hmemory : call.itemMemory <;>
        simp [append, finshSysvarAppend, SymbolTable.append, List.filterMap_cons,
          AppendCall.syscallItem, AppendCall.sysvarItem, SymbolAppend.item, hmemory]

/-- After any calls that append symbols, a lookup goes by the exact name exactly when the static
table has it or no entry that masks it was appended after the last one with the name. -/
theorem lookups_exact_iff (syscallTable : List (List Char × BitVec 32))
    (sysvarTable : List (List Char × FinshType × BitVec 32))
    (calls : List AppendCall) (name : List Char) :
    let s := (start syscallTable sysvarTable).appendAll calls
    let syscalls : SymbolTable (BitVec 32) :=
      ⟨syscallTable, (calls.filterMap AppendCall.syscallItem).reverse⟩
    let sysvars : SymbolTable (FinshType × BitVec 32) :=
      ⟨sysvarTable, (calls.filterMap AppendCall.sysvarItem).reverse⟩
    (syscalls.Exact name (s.finshSyscallLookup name) ↔ syscalls.Unmasked name) ∧
      (sysvars.Exact name (s.finshSysvarLookup name) ↔ sysvars.Unmasked name) := by
  intro s syscalls sysvars
  have hs : s = ⟨syscalls, sysvars⟩ := by
    simp [s, syscalls, sysvars, start, appendAll_eq]
  rw [hs]
  exact ⟨syscalls.exact_lookup_iff name, sysvars.exact_lookup_iff name⟩

/-- The name `pset` is found under `ps`. -/
theorem prefix_found :
    ¬∀ (calls : List AppendCall) (name : List Char), name.length ≤ FINSH_NAME_MAX →
      SymbolTable.Exact ⟨[], (calls.filterMap AppendCall.syscallItem).reverse⟩ name
        (((start [] []).appendAll calls).finshSyscallLookup name) := by
  intro h
  have hexact := h [.syscall ⟨['p', 's', 'e', 't'], 1, true, true⟩] ['p', 's'] (by decide)
  obtain ⟨result, hresult, -, hfound⟩ := hexact
  obtain rfl : some (.list ⟨some ['p', 's', 'e', 't'], 1⟩) = result := some.inj hresult
  exact absurd (hfound _ rfl).1 (by decide)

end FinshSymbols

end RtThread.Finsh
