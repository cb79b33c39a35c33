import RtThread.RamfsModel
import RtThread.MemheapBlocks

/-!
# Directory entries and data in the heap

Every entry has a block for itself and, when it has data, one for the data.  The
functions of `dfs_ramfs.c` that change an entry keep the blocks of the others.
-/

namespace RtThread.Ramfs

open List MemHeap Word Memory FileHistory

variable {a : AlignSize} {area : Area a} {m m' : Memory} {d p q size : ℕ} {name : Name}
  {file : List UInt8}

structure HasDirent (a : AlignSize) (m : Memory) (d : ℕ) (name : Name) (data size : ℕ) : Prop where
  room : d + sizeofDirent ≤ blockEnd a m d
  name : m.ShowsString (nameAddr d) name
  data : direntData m d = data
  size : direntSize m d = size

/-- The bytes of a file at `p`; an empty file may have no block. -/
structure HasBytes (a : AlignSize) (m : Memory) (p : ℕ) (file : List UInt8) : Prop where
  byte : ∀ k (hk : k < file.length), m (p + k) = file[k]
  room : file ≠ [] → p + file.length ≤ blockEnd a m p

structure NameFits (name : Name) : Prop where
  short : name.length < RAMFS_NAME_MAX
  noZero : 0 ∉ name

theorem HasDirent.frame (hdirent : HasDirent a m d name p size) (hname : NameFits name)
    (hsame : SameBlock a m m' d) : HasDirent a m' d name p size := by
  have hroom := hdirent.room
  have hshort := hname.short
  unfold sizeofDirent at hroom
  unfold RAMFS_NAME_MAX at hshort
  constructor
  · rw [hsame.ends]
    exact hdirent.room
  · apply hdirent.name.congr
    intro b hlow hhigh
    unfold nameAddr at hlow hhigh
    exact hsame.byte b (by lia) (by lia)
  · exact (hsame.load_eq (by lia) (by lia)).trans hdirent.data
  · exact (hsame.load_eq (by lia) (by lia)).trans hdirent.size

theorem HasBytes.frame (hbytes : HasBytes a m p file) (hsame : file ≠ [] → SameBlock a m m' p) :
    HasBytes a m' p file := by
  constructor
  · intro k hk
    have hne : file ≠ [] := ne_nil_of_length_pos (by omega)
    have hroom := hbytes.room hne
    rw [(hsame hne).byte _ (by omega) (by omega)]
    exact hbytes.byte k hk
  · intro hne
    rw [(hsame hne).ends]
    exact hbytes.room hne

theorem setData_outside {b data : ℕ} (m : Memory) (hout : b < d + 40 ∨ d + 44 ≤ b) :
    setData m d data b = m b := by
  have hnot : ¬(d + 40 ≤ b ∧ b < d + 40 + 4) := by omega
  exact if_neg hnot

theorem setSize_outside {b size : ℕ} (m : Memory) (hout : b < d + 44 ∨ d + 48 ≤ b) :
    setSize m d size b = m b := by
  have hnot : ¬(d + 44 ≤ b ∧ b < d + 44 + 4) := by omega
  exact if_neg hnot

theorem direntData_setData {data : ℕ} (m : Memory) (hlt : data < 4294967296) :
    direntData (setData m d data) d = data := by
  unfold direntData setData
  rw [load_store_same]
  exact Nat.mod_eq_of_lt hlt

theorem direntSize_setSize (m : Memory) (hlt : size < 4294967296) :
    direntSize (setSize m d size) d = size := by
  unfold direntSize setSize
  rw [load_store_same]
  exact Nat.mod_eq_of_lt hlt

theorem direntData_setSize (m : Memory) : direntData (setSize m d size) d = direntData m d :=
  m.load_store_of_apart (.inl (by omega))

theorem direntSize_setData {data : ℕ} (m : Memory) :
    direntSize (setData m d data) d = direntSize m d :=
  m.load_store_of_apart (.inr (by omega))

theorem direntSize_lt (m : Memory) (d : ℕ) : direntSize m d < 4294967296 :=
  (m.load_lt (d + 44) 4).trans_le (by norm_num)

theorem HasDirent.update {p' size' : ℕ} (hdirent : HasDirent a m d name p size)
    (hname : NameFits name) (hends : blockEnd a m' d = blockEnd a m d)
    (hkept : ∀ b, b < d + 40 → m' b = m b) (hdata : direntData m' d = p')
    (hsize : direntSize m' d = size') : HasDirent a m' d name p' size' where
  room := by
    rw [hends]
    exact hdirent.room
  name := by
    have hshort := hname.short
    unfold RAMFS_NAME_MAX at hshort
    apply hdirent.name.congr
    intro b hlow hhigh
    unfold nameAddr at hhigh
    exact hkept b (by omega)
  data := hdata
  size := hsize

structure Entry where
  addr : ℕ
  name : Name
  data : ℕ
  file : List UInt8

def Entry.blocks (e : Entry) : List ℕ := e.addr :: if e.data = rtNull then [] else [e.data]

structure Entry.Shown (a : AlignSize) (m : Memory) (e : Entry) : Prop where
  dirent : HasDirent a m e.addr e.name e.data e.file.length
  bytes : HasBytes a m e.data e.file
  fits : NameFits e.name
  noData : e.data = rtNull → e.file = []

/-- The entries and their files are blocks of the heap. -/
structure Stored (area : Area a) (state : MemHeap.State) (view : List Entry) : Prop where
  owned : Owned area ⟨state, view.flatMap Entry.blocks⟩
  shown : ∀ e ∈ view, e.Shown a state.memory

variable {state state' : MemHeap.State} {ramfs : DfsRamfs} {view view' rest : List Entry}
  {e e' : Entry} {blocks : List ℕ}

theorem Entry.Shown.frame (hshown : e.Shown a m) (hsame : ∀ p ∈ e.blocks, SameBlock a m m' p) :
    e.Shown a m' where
  dirent := hshown.dirent.frame hshown.fits (hsame _ mem_cons_self)
  bytes := by
    apply hshown.bytes.frame
    intro hne
    apply hsame
    have hdata : e.data ≠ rtNull := fun hnull => hne (hshown.noData hnull)
    unfold Entry.blocks
    rw [if_neg hdata]
    exact mem_cons_of_mem _ (mem_singleton_self _)
  fits := hshown.fits
  noData := hshown.noData

theorem Stored.perm (hstored : Stored area state view) (hperm : view.Perm view') :
    Stored area state view' where
  owned := hstored.owned.perm (hperm.flatMap_right _)
  shown e he := hstored.shown e (hperm.mem_iff.mpr he)

theorem stored_cons (hrest : ∀ e ∈ rest, e.Shown a state.memory)
    (howned : Owned area ⟨state', e'.blocks ++ rest.flatMap Entry.blocks⟩)
    (hshown : e'.Shown a state'.memory)
    (hsame : ∀ p ∈ rest.flatMap Entry.blocks, SameBlock a state.memory state'.memory p) :
    Stored area state' (e' :: rest) where
  owned := howned
  shown e he := by
    rcases mem_cons.mp he with rfl | he
    · exact hshown
    · apply (hrest e he).frame
      intro p hp
      exact hsame p (mem_flatMap.mpr ⟨e, he, hp⟩)

theorem writeDirent (howned : Owned area ⟨state, d :: blocks⟩)
    (hroom : d + sizeofDirent ≤ blockEnd a state.memory d)
    (hwithin : ∀ b, b < d ∨ d + sizeofDirent ≤ b → m' b = state.memory b) :
    Owned area ⟨{ state with memory := m' }, d :: blocks⟩ ∧
      blockEnd a m' d = blockEnd a state.memory d ∧
      ∀ q ∈ blocks, SameBlock a state.memory m' q :=
  howned.writeBlock fun b hb => hwithin b (by omega)

theorem newDirent_outside {b : ℕ} (m : Memory) (path : Name)
    (hout : b < d ∨ d + sizeofDirent ≤ b) : newDirent m d path b = m b := by
  unfold sizeofDirent at hout
  unfold newDirent
  rw [setSize_outside _ (by lia), setData_outside _ (by lia)]
  apply strncpy_outside
  unfold nameAddr RAMFS_NAME_MAX
  lia

theorem newDirent_hasDirent {path : Name} (hname : NameFits (subpath path))
    (hroom : d + sizeofDirent ≤ blockEnd a (newDirent m d path) d) :
    HasDirent a (newDirent m d path) d (subpath path) rtNull 0 := by
  have hshort := hname.short
  constructor
  · exact hroom
  · have hcopied : ShowsString (m.strncpy (nameAddr d) (subpath path) RAMFS_NAME_MAX)
        (nameAddr d) (subpath path) := m.strncpy_shows hname.short
    apply hcopied.congr
    intro b hlow hhigh
    unfold nameAddr RAMFS_NAME_MAX at *
    unfold newDirent
    rw [setSize_outside _ (by omega), setData_outside _ (by omega)]
    rfl
  · unfold newDirent
    rw [direntData_setSize, direntData_setData _ (by decide)]
  · unfold newDirent
    rw [direntSize_setSize _ (by decide)]

theorem Stored.create {path : Name} {result : MemHeap.State × ℕ}
    (hstored : Stored area state view) (hname : NameFits (subpath path))
    (hgranted : Granted area state (view.flatMap Entry.blocks) (itemSize a sizeofDirent) result) :
    Stored area { result.1 with memory := newDirent result.1.memory result.2 path }
      (⟨result.2, subpath path, rtNull, []⟩ :: view) := by
  have hsize : sizeofDirent ≤ itemSize a sizeofDirent := by
    have hbytes := a.bytes_le
    exact (le_rtAlign a (by unfold sizeofDirent; omega)).trans (itemSize_spec a sizeofDirent).1
  have hroom := hgranted.room
  have hwithin : ∀ b, b < result.2 ∨ result.2 + sizeofDirent ≤ b →
      newDirent result.1.memory result.2 path b = result.1.memory b :=
    fun b hb => newDirent_outside result.1.memory path hb
  rcases writeDirent hgranted.owned (by omega) hwithin with ⟨howned, hends, hsame⟩
  apply stored_cons hstored.shown
  · exact howned
  · constructor
    · exact newDirent_hasDirent hname (by omega)
    · exact ⟨fun k hk => absurd hk (Nat.not_lt_zero k), fun hne => absurd rfl hne⟩
    · exact hname
    · exact fun _ => rfl
  · intro p hp
    exact (hgranted.same p hp).trans (hsame p hp)

theorem HasDirent.setSize {size' : ℕ} (hdirent : HasDirent a m d name p size)
    (hname : NameFits name) (hlt : size' < 4294967296)
    (hends : blockEnd a (setSize m d size') d = blockEnd a m d) :
    HasDirent a (setSize m d size') d name p size' :=
  hdirent.update hname hends (fun b hb => setSize_outside m (by omega))
    ((direntData_setSize m).trans hdirent.data) (direntSize_setSize m hlt)

theorem HasDirent.setData {p' : ℕ} (hdirent : HasDirent a m d name p size)
    (hname : NameFits name) (hlt : p' < 4294967296)
    (hends : blockEnd a (setData m d p') d = blockEnd a m d) :
    HasDirent a (setData m d p') d name p' size :=
  hdirent.update hname hends (fun b hb => setData_outside m (by omega))
    (direntData_setData m hlt) ((direntSize_setData m).trans hdirent.size)

theorem Entry.blocks_of_data (hdata : e.data ≠ rtNull) : e.blocks = [e.addr, e.data] := by
  unfold Entry.blocks
  rw [if_neg hdata]

theorem Entry.blocks_of_null (hdata : e.data = rtNull) : e.blocks = [e.addr] := by
  unfold Entry.blocks
  rw [if_pos hdata]

theorem Stored.data_first (hstored : Stored area state (e :: rest)) (hdata : e.data ≠ rtNull) :
    Owned area ⟨state, e.data :: e.addr :: rest.flatMap Entry.blocks⟩ := by
  have howned := hstored.owned
  rw [flatMap_cons, Entry.blocks_of_data hdata] at howned
  exact howned.perm (Perm.swap _ _ _)

theorem truncateFile_entries (ramfs : DfsRamfs) (d : ℕ) :
    (truncateFile a ramfs d).entries = ramfs.entries := by
  unfold truncateFile DfsRamfs.setMemory
  dsimp only
  split_ifs <;> rfl

theorem Stored.truncate (hstored : Stored area ramfs.heap (e :: rest)) :
    Stored area (truncateFile a ramfs e.addr).heap
      ({ e with data := rtNull, file := [] } :: rest) := by
  have hshown := hstored.shown e mem_cons_self
  have hrest : ∀ e ∈ rest, e.Shown a ramfs.heap.memory :=
    fun e' he => hstored.shown e' (mem_cons_of_mem e he)
  have hwithin : ∀ b, b < e.addr ∨ e.addr + sizeofDirent ≤ b →
      setSize ramfs.heap.memory e.addr 0 b = ramfs.heap.memory b := by
    intro b hb
    unfold sizeofDirent at hb
    exact setSize_outside _ (by omega)
  rcases writeDirent hstored.owned hshown.dirent.room hwithin with ⟨howned, hends, hsame⟩
  have hsized := hshown.dirent.setSize hshown.fits (by decide) hends
  have hshows : ∀ {m' : Memory}, HasDirent a m' e.addr e.name rtNull 0 →
      Entry.Shown a m' { e with data := rtNull, file := [] } :=
    fun hdirent => ⟨hdirent, ⟨fun k hk => absurd hk (Nat.not_lt_zero k),
      fun hne => absurd rfl hne⟩, hshown.fits, fun _ => rfl⟩
  unfold truncateFile
  simp only [DfsRamfs.setMemory, hsized.data]
  by_cases hdata : e.data = rtNull
  · rw [if_neg (not_not_intro hdata)]
    rw [if_pos hdata] at howned hsame
    rw [hdata] at hsized
    exact stored_cons hrest howned (hshows hsized) hsame
  · rw [if_pos hdata]
    rw [if_neg hdata] at howned hsame
    rcases (howned.perm (Perm.swap _ _ _)).freeBlock with ⟨hfreed, hkept⟩
    have hfree := hsized.frame hshown.fits (hkept _ mem_cons_self)
    generalize rtMemheapFree a { ramfs.heap with
      memory := setSize ramfs.heap.memory e.addr 0 } e.data = freed at *
    have hwithin' : ∀ b, b < e.addr ∨ e.addr + sizeofDirent ≤ b →
        setData freed.memory e.addr rtNull b = freed.memory b := by
      intro b hb
      unfold sizeofDirent at hb
      exact setData_outside _ (by omega)
    rcases writeDirent hfreed hfree.room hwithin' with ⟨howned', hends', hsame'⟩
    apply stored_cons hrest howned' (hshows (hfree.setData hshown.fits (by decide) hends'))
    intro p hp
    have hfirst := hsame p (mem_cons_of_mem _ hp)
    have hsecond := hkept p (mem_cons_of_mem _ hp)
    exact (hfirst.trans hsecond).trans (hsame' p hp)

theorem Stored.realloc {n : ℕ} (hstored : Stored area state (e :: rest)) (hpos : n ≠ 0)
    (hfits : SizeFits a n) : ∃ result, rtMemheapRealloc a state area.heap e.data n = some result ∧
      (result = (state, rtNull) ∨
        Granted area state (e.addr :: rest.flatMap Entry.blocks) n result ∧
          ∀ k (hk : k < e.file.length), k < n → result.1.memory (result.2 + k) = e.file[k]) := by
  have hshown := hstored.shown e mem_cons_self
  have hle : n ≤ itemSize a n :=
    (le_rtAlign a (by have := hfits.1; have := a.bytes_pos; lia)).trans (itemSize_spec a n).1
  by_cases hdata : e.data = rtNull
  · have howned := hstored.owned
    rw [flatMap_cons, Entry.blocks_of_null hdata] at howned
    have hround := itemSize_add_le a n
    have hle' : itemSize a n ≤ itemSize a (itemSize a n) :=
      (le_rtAlign a hround).trans (itemSize_spec a _).1
    rcases howned.allocBlock (itemSize a n) with ⟨result, hresult, hcases⟩
    refine ⟨result, ?_, ?_⟩
    · unfold rtMemheapRealloc
      rw [if_neg hpos, if_pos hdata]
      exact hresult
    · rcases hcases with hnull | hgranted
      · exact .inl hnull
      · have hroom := hgranted.room
        refine .inr ⟨⟨hgranted.owned, by lia, hgranted.same⟩, ?_⟩
        intro k hk
        rw [hshown.noData hdata] at hk
        exact absurd hk (Nat.not_lt_zero k)
  · rcases (hstored.data_first hdata).reallocBlock hpos hfits with ⟨result, hresult, hcases⟩
    refine ⟨result, hresult, ?_⟩
    rcases hcases with hnull | ⟨hgranted, hcopied⟩
    · exact .inl hnull
    · have hroom := hgranted.room
      refine .inr ⟨⟨hgranted.owned, by lia, hgranted.same⟩, ?_⟩
      intro k hk hkn
      have hne : e.file ≠ [] := ne_nil_of_length_pos (by lia)
      have hend := hshown.bytes.room hne
      rw [hcopied k hkn (by lia)]
      exact hshown.bytes.byte k hk

theorem Stored.grow {n : ℕ} (hstored : Stored area state (e :: rest)) (hpos : n ≠ 0)
    (hfits : SizeFits a n) (hlength : e.file.length ≤ n) :
    ∃ result, rtMemheapRealloc a state area.heap e.data n = some result ∧
      (result = (state, rtNull) ∨ result.2 ≠ rtNull ∧
          ∃ file : List UInt8, file.length = n ∧ file.take e.file.length = e.file ∧ Stored area
              { result.1 with
                memory := setSize (setData result.1.memory e.addr result.2) e.addr n }
              ({ e with data := result.2, file := file } :: rest)) := by
  have hshown := hstored.shown e mem_cons_self
  rcases hstored.realloc hpos hfits with ⟨⟨state', q⟩, hresult, hcases⟩
  refine ⟨(state', q), hresult, ?_⟩
  rcases hcases with hnull | ⟨hgranted, hcopied⟩
  · exact .inl hnull
  · rcases hgranted with ⟨hmoved, hroom, hkept⟩
    have hq := hmoved.ne_null mem_cons_self
    have hn : n < 4294967296 := by have := hfits.1; lia
    have hend : blockEnd a state'.memory q < 4294967296 := get_lt _ _ _
    have hdirent := hshown.dirent.frame hshown.fits (hkept _ mem_cons_self)
    have hwithin : ∀ b, b < e.addr ∨ e.addr + sizeofDirent ≤ b →
        setSize (setData state'.memory e.addr q) e.addr n b = state'.memory b := by
      intro b hb
      unfold sizeofDirent at hb
      rw [setSize_outside _ (by lia), setData_outside _ (by lia)]
    rcases writeDirent (hmoved.perm (Perm.swap _ _ _)) hdirent.room hwithin
      with ⟨howned, hends, hsame⟩
    have hdataSame := hsame q mem_cons_self
    generalize hm : setSize (setData state'.memory e.addr q) e.addr n = m' at *
    refine .inr ⟨hq, m'.bytes q n, by simp [bytes], ?_, ?_⟩
    · apply ext_getElem?
      intro k
      rw [getElem?_take]
      by_cases hk : k < e.file.length
      · rw [if_pos hk, getElem?_bytes, if_pos (by lia), getElem?_eq_getElem hk,
          hdataSame.byte _ (by lia) (by lia), hcopied k hk (by lia)]
      · rw [if_neg hk, getElem?_eq_none (by lia)]
    · apply stored_cons (fun e' he => hstored.shown e' (mem_cons_of_mem e he))
      · rw [Entry.blocks_of_data hq]
        exact howned
      · constructor
        · apply hdirent.update hshown.fits hends
          · intro b hb
            rw [← hm, setSize_outside _ (by lia), setData_outside _ (by lia)]
          · rw [← hm, direntData_setSize, direntData_setData _ (by lia)]
          · rw [← hm, direntSize_setSize _ hn]
            simp [bytes]
        · constructor
          · intro k hk
            simp [bytes]
          · intro _
            rw [hdataSame.ends]
            simpa [bytes] using hroom
        · exact hshown.fits
        · exact fun hnull => absurd hnull hq
      · intro p hp
        exact (hkept p (mem_cons_of_mem _ hp)).trans (hsame p (mem_cons_of_mem _ hp))

theorem HasBytes.put {pos : ℕ} {buf : List UInt8} (hbytes : HasBytes a m p file)
    (hroom : pos + buf.length ≤ file.length)
    (hends : blockEnd a (m.put (p + pos) buf) p = blockEnd a m p) :
    HasBytes a (m.put (p + pos) buf) p (FileHistory.overwrite file pos buf) := by
  have hlength : (overwrite file pos buf).length = file.length := by
    rw [length_overwrite (by lia), max_eq_left hroom]
  constructor
  · intro k hk
    apply Option.some.inj
    rw [← getElem?_eq_getElem hk, getElem?_overwrite (by lia)]
    by_cases hin : pos ≤ k ∧ k < pos + buf.length
    · have hplace : p + k = p + pos + (k - pos) := by lia
      rw [if_pos hin, hplace, put_inside _ (by lia), getElem?_eq_getElem]
    · rw [if_neg hin, put_outside _ (by lia), hbytes.byte k (by lia),
        getElem?_eq_getElem]
  · intro hne
    rw [hends, hlength]
    apply hbytes.room
    intro hnil
    exact hne (eq_nil_of_length_eq_zero (hlength.trans (by rw [hnil, length_nil])))

theorem Stored.put {pos : ℕ} {buf : List UInt8} (hstored : Stored area state (e :: rest))
    (hroom : pos + buf.length ≤ e.file.length) :
    Stored area { state with memory := state.memory.put (e.data + pos) buf }
      ({ e with file := FileHistory.overwrite e.file pos buf } :: rest) := by
  have hshown := hstored.shown e mem_cons_self
  have hlength : (overwrite e.file pos buf).length = e.file.length := by
    rw [length_overwrite (by lia), max_eq_left hroom]
  by_cases hbuf : buf = []
  · rw [hbuf, put_nil]
    simpa [overwrite] using hstored
  · have hbufLength := length_pos_iff.mpr hbuf
    have hne : e.file ≠ [] := ne_nil_of_length_pos (by lia)
    have hdata : e.data ≠ rtNull := fun hnull => hne (hshown.noData hnull)
    have hend := hshown.bytes.room hne
    have hwithin : ∀ b, b < e.data ∨ blockEnd a state.memory e.data ≤ b →
        state.memory.put (e.data + pos) buf b = state.memory b := by
      intro b hb
      exact put_outside _ (by lia)
    rcases (hstored.data_first hdata).writeBlock hwithin with ⟨howned, hends, hsame⟩
    apply stored_cons (fun e' he => hstored.shown e' (mem_cons_of_mem e he))
    · have hblocks : Entry.blocks { e with file := overwrite e.file pos buf } =
          [e.addr, e.data] := Entry.blocks_of_data hdata
      rw [hblocks]
      exact howned.perm (Perm.swap _ _ _)
    · constructor
      · rw [hlength]
        exact hshown.dirent.frame hshown.fits (hsame _ mem_cons_self)
      · exact hshown.bytes.put hroom hends
      · exact hshown.fits
      · exact fun hnull => absurd hnull hdata
    · intro p hp
      exact hsame p (mem_cons_of_mem _ hp)

/-- The directory in memory shows the entries of `view`, no name twice. -/
structure Listed (disk : Disk a) (ramfs : DfsRamfs) (view : List Entry) : Prop where
  entries : ramfs.entries = view.map Entry.addr
  stored : Stored disk.toArea ramfs.heap view
  names : (view.map Entry.name).Nodup

theorem addr_mem_blocks (he : e ∈ view) : e.addr ∈ view.flatMap Entry.blocks :=
  mem_flatMap.mpr ⟨e, he, mem_cons_self⟩

theorem lookup_of_root {disk : Disk a} {path : Name} (ramfs : DfsRamfs)
    (hpath : subpath path = []) : dfsRamfsLookup disk ramfs path = disk.root := if_pos hpath

namespace Listed

variable {disk : Disk a} {path : Name}

section

variable (hlisted : Listed disk ramfs view)
include hlisted

theorem root_lt (he : e ∈ view) : disk.root < e.addr := by
  have hstart := hlisted.stored.owned.start_lt (addr_mem_blocks he)
  have hroot := disk.root_fits
  omega

theorem addr_ne_null (he : e ∈ view) : e.addr ≠ rtNull :=
  hlisted.stored.owned.ne_null (addr_mem_blocks he)

theorem find_eq (name : Name) :
    ramfs.find name = (view.find? fun e => e.name = name).map Entry.addr := by
  unfold DfsRamfs.find
  rw [hlisted.entries, find?_map]
  congr 1
  apply find?_congr
  intro e he
  have hshown := hlisted.stored.shown e he
  have hsame := hshown.dirent.name.sameString_iff (t := name) hshown.fits.noZero
  rw [Bool.eq_iff_iff, Function.comp_apply, hsame, decide_eq_true_iff]
  constructor
  · exact And.right
  · rintro rfl
    exact ⟨hshown.fits.noZero, rfl⟩

theorem find_of_mem (he : e ∈ view) : ramfs.find e.name = some e.addr := by
  rw [hlisted.find_eq]
  have hfound : view.find? (fun other => decide (other.name = e.name)) = some e := by
    rcases append_of_mem he with ⟨l, r, rfl⟩
    have hnames := hlisted.names
    rw [map_append, map_cons, nodup_append] at hnames
    rw [find?_append, find?_eq_none.mpr, Option.none_or, find?_cons_of_pos]
    · simp
    · intro other hother
      have hne := hnames.2.2 other.name (mem_map_of_mem hother) e.name mem_cons_self
      simpa using hne
  rw [hfound]
  rfl

theorem find_of_absent (hname : name ∉ view.map Entry.name) : ramfs.find name = none := by
  rw [hlisted.find_eq, find?_eq_none.mpr]
  · rfl
  · intro e he heq
    exact hname (mem_map.mpr ⟨e, he, by simpa using heq⟩)

theorem lookup_of_mem (hpath : subpath path ≠ [])
    (he : e ∈ view) (hname : subpath path = e.name) : dfsRamfsLookup disk ramfs path = e.addr := by
  unfold dfsRamfsLookup
  rw [if_neg hpath, hname, hlisted.find_of_mem he]
  rfl

theorem lookup_of_absent (hpath : subpath path ≠ [])
    (habsent : subpath path ∉ view.map Entry.name) : dfsRamfsLookup disk ramfs path = rtNull := by
  unfold dfsRamfsLookup
  rw [if_neg hpath, hlisted.find_of_absent habsent]
  rfl

end

end Listed

end RtThread.Ramfs
