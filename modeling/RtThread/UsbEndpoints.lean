import RtThread.KernelDefs

/-!
# Packets at the endpoints of a USB device

The device controller is the packets passed to `dcd_ep_write` and the place where it was told to put
what comes in; one notification stands for each packet which the host has taken or sent.
-/

namespace RtThread.Usbd

open Function List Nat

inductive UioRequestType where
  | readBest
  | readFull
  | write
  deriving DecidableEq

structure UioRequest where
  reqType : UioRequestType
  buffer : ℕ
  size : ℕ
  remainSize : ℕ

/-- The memory and an endpoint; `prepared` is where the controller puts the next packet by itself.
As history, `packets` have been passed to `dcd_ep_write`, and with the sizes `handled` the handler
of the endpoint has been called. -/
structure Device (β : Type) where
  mem : ℕ → β
  maxpacket : ℕ
  dirIn : Bool
  stalled : Bool
  request : UioRequest
  requestList : List UioRequest
  prepared : ℕ
  packets : List (List β)
  handled : List ℕ

variable {β : Type}

def bytesAt (mem : ℕ → β) (addr size : ℕ) : List β := (List.range size).map fun i => mem (addr + i)

def storeAt (mem : ℕ → β) (addr : ℕ) (bytes : List β) : ℕ → β := fun x =>
  if addr ≤ x then (bytes[x - addr]?).getD (mem x) else mem x

def dcdEpWrite (buffer size : ℕ) (s : Device β) : Device β :=
  { s with packets := s.packets ++ [bytesAt s.mem buffer size] }

def epHandler (size : ℕ) (s : Device β) : Device β := { s with handled := s.handled ++ [size] }

def writeFirst (s : Device β) : Device β :=
  if s.maxpacket ≤ s.request.remainSize then
    let s := dcdEpWrite s.request.buffer s.maxpacket s
    { s with request := { s.request with
        remainSize := s.request.remainSize - s.maxpacket
        buffer := s.request.buffer + s.maxpacket } }
  else
    let s := dcdEpWrite s.request.buffer s.request.remainSize s
    { s with request := { s.request with remainSize := 0 } }

def rtUsbdEpWrite (s : Device β) : Device β := writeFirst s

def rtUsbdEp0Write (buffer size : ℕ) (s : Device β) : Device β :=
  writeFirst { s with request := { s.request with
    size := size, buffer := buffer, remainSize := size } }

def rtUsbdEp0InHandler (s : Device β) : Device β :=
  if s.maxpacket ≤ s.request.remainSize then
    let s := dcdEpWrite s.request.buffer s.maxpacket s
    { s with request := { s.request with remainSize := s.request.remainSize - s.maxpacket } }
  else if 0 < s.request.remainSize then
    let s := dcdEpWrite s.request.buffer s.request.remainSize s
    { s with request := { s.request with remainSize := 0 } }
  else dcdEpWrite 0 0 s

def rtUsbdIoRequest (s : Device β) : Device β :=
  if s.stalled = false then
    let s := { s with request := { s.request with remainSize := s.request.size } }
    match s.request.reqType with
    | .readBest | .readFull => { s with prepared := s.request.buffer }
    | .write => rtUsbdEpWrite s
  else { s with requestList := s.requestList ++ [s.request] }

def dataNotify (size : ℕ) (packet : List β) (s : Device β) : Device β :=
  if s.dirIn then
    if s.maxpacket ≤ s.request.remainSize then
      let s := dcdEpWrite s.request.buffer s.maxpacket s
      { s with request := { s.request with
          remainSize := s.request.remainSize - s.maxpacket
          buffer := s.request.buffer + s.maxpacket } }
    else if 0 < s.request.remainSize then
      let s := dcdEpWrite s.request.buffer s.request.remainSize s
      { s with request := { s.request with remainSize := 0 } }
    else epHandler 0 s
  else if s.request.remainSize = 0 then s
  else
    let (size, s) := if size = 0 then
        (packet.length, { s with mem := storeAt s.mem s.request.buffer packet })
      else (size, s)
    let s := { s with request := { s.request with
      remainSize := s.request.remainSize - size
      buffer := s.request.buffer + size } }
    if s.request.reqType = .readBest then epHandler size s
    else if s.request.remainSize = 0 then epHandler s.request.size s
    else s

/-- A packet from the host: the controller puts it where it was told and says its size, or leaves it
to `dcd_ep_read`; it goes on behind it. -/
def receive (s : Device β) (packet : Bool × List β) : Device β :=
  let s' := if packet.1 then
      dataNotify packet.2.length packet.2 { s with mem := storeAt s.mem s.prepared packet.2 }
    else dataNotify 0 packet.2 s
  { s' with prepared := s.prepared + packet.2.length }

def piece (mem : ℕ → β) (buffer L m k : ℕ) : List β :=
  bytesAt mem (buffer + k * m) (min m (L - k * m))

def pieces (mem : ℕ → β) (buffer L m n : ℕ) : List (List β) :=
  (List.range n).map (piece mem buffer L m)

theorem bytesAt_append (mem : ℕ → β) (addr a b : ℕ) :
    bytesAt mem addr a ++ bytesAt mem (addr + a) b = bytesAt mem addr (a + b) := by
  simp only [bytesAt, range_add, map_append, map_map, comp_def,
    add_assoc]

theorem bytesAt_eq_iff {mem : ℕ → β} {addr addr' size : ℕ} :
    bytesAt mem addr size = bytesAt mem addr' size ↔
      ∀ i < size, mem (addr + i) = mem (addr' + i) := by
  simp only [bytesAt, map_inj_left, mem_range]

theorem pieces_succ (mem : ℕ → β) (buffer L m n : ℕ) :
    pieces mem buffer L m (n + 1) = pieces mem buffer L m n ++ [piece mem buffer L m n] := by
  simp only [pieces, range_succ, map_append, map_cons, map_nil]

theorem pieces_flatten (mem : ℕ → β) (buffer L m n : ℕ) :
    (pieces mem buffer L m n).flatten = bytesAt mem buffer (min L (n * m)) := by
  induction n with
  | zero => simp [pieces, bytesAt]
  | succ n ih =>
    rw [pieces_succ, flatten_append, ih, succ_mul]
    simp only [flatten_cons, flatten_nil, append_nil, piece]
    rcases lt_or_ge (n * m) L with hlt | hge
    · rw [min_eq_right hlt.le, bytesAt_append]
      congr 1
      omega
    · rw [Nat.min_eq_left hge, Nat.sub_eq_zero_of_le hge, Nat.min_zero, Nat.min_eq_left (by omega)]
      simp [bytesAt]

variable {s : Device β} {mem : ℕ → β} {buffer L m : ℕ}

def sent (mem : ℕ → β) (buffer L m : ℕ) : ℕ → List β
  | 0 => piece mem buffer L m 0
  | k + 1 => bytesAt mem (buffer + m) (min m (L - (k + 1) * m))

/-- Behind `k` more interrupts the first `k + 1` packets are sent. -/
theorem ep0_run (hm : 1 ≤ m) (hmem : s.mem = mem) (hmax : s.maxpacket = m)
    (hpackets : s.packets = []) (k : ℕ) :
    ∃ s', rtUsbdEp0InHandler^[k] (rtUsbdEp0Write buffer L s) = s' ∧ s'.mem = mem ∧
      s'.maxpacket = m ∧ s'.request.remainSize = L - (k + 1) * m ∧
      (m ≤ L → s'.request.buffer = buffer + m) ∧
      s'.packets = (List.range (k + 1)).map (sent mem buffer L m) := by
  induction k with
  | zero =>
    refine ⟨_, rfl, ?_⟩
    simp only [iterate_zero_apply, rtUsbdEp0Write, writeFirst, hmax, zero_add,
      one_mul]
    split_ifs with hle
    · simp [dcdEpWrite, hmem, hpackets, sent, piece, Nat.min_eq_left hle]
    · have hlt : L ≤ m := by omega
      simp [dcdEpWrite, hmem, hpackets, sent, piece, Nat.min_eq_right hlt,
        Nat.sub_eq_zero_of_le hlt, hle]
  | succ k ih =>
    obtain ⟨s', heq, hmem', hmax', hremain, hbuffer, hpackets'⟩ := ih
    refine ⟨_, rfl, ?_⟩
    rw [iterate_succ_apply', heq]
    have hnext : L - (k + 1 + 1) * m = L - (k + 1) * m - m := by
      rw [succ_mul (k + 1), sub_add_eq]
    have hfirst : m ≤ (k + 1) * m := Nat.le_mul_of_pos_left m (by omega)
    rw [range_succ, map_append, ← hpackets', hnext]
    simp only [map_cons, map_nil, sent, rtUsbdEp0InHandler, hmax', hremain]
    split_ifs with hle hpos
    · simp [dcdEpWrite, hmem', hmax', hremain, hbuffer (by omega), Nat.min_eq_left hle]
    · have hlt : L - (k + 1) * m ≤ m := by omega
      simp [dcdEpWrite, hmem', hmax', hbuffer (by omega), Nat.min_eq_right hlt,
        Nat.sub_eq_zero_of_le hlt]
    · have hzero : L - (k + 1) * m = 0 := by omega
      simp [dcdEpWrite, hmem', hmax', hremain, hzero, bytesAt]
      exact hbuffer

/-- The packets are the pieces of the buffer only where it repeats itself. -/
theorem sent_eq_piece_iff (hm : 1 ≤ m) : (∀ k, sent mem buffer L m k = piece mem buffer L m k) ↔
      ∀ i, m ≤ i → i + m < L → mem (buffer + (i + m)) = mem (buffer + i) := by
  constructor
  · intro h i hi hL
    have hsame : ∀ k, 1 ≤ k → k * m + i % m < L →
        mem (buffer + m + i % m) = mem (buffer + k * m + i % m) := by
      intro k hk hlt
      obtain ⟨k, rfl⟩ : ∃ j, k = j + 1 := ⟨k - 1, by omega⟩
      have hr := mod_lt i hm
      exact bytesAt_eq_iff.1 (h (k + 1)) (i % m) (by omega)
    have hdecomp := div_add_mod' i m
    have hone : 1 ≤ i / m := (one_le_div_iff hm).2 hi
    have hthis := hsame (i / m) hone (by omega)
    have hnext := hsame (i / m + 1) (by omega) (by rw [succ_mul]; omega)
    rw [succ_mul] at hnext
    rw [show buffer + (i + m) = buffer + (i / m * m + m) + i % m by omega, ← hnext, hthis]
    congr 1
    omega
  · intro h k
    induction k with
    | zero => rfl
    | succ k ih =>
      refine bytesAt_eq_iff.2 fun i hi => ?_
      cases k with
      | zero => rw [zero_add, one_mul]
      | succ k =>
        have hprev := bytesAt_eq_iff.1 ih i (by rw [succ_mul (k + 1)] at hi; omega)
        have hfirst : m ≤ (k + 1) * m := Nat.le_mul_of_pos_left m (by omega)
        rw [succ_mul (k + 1)] at hi ⊢
        rw [hprev, ← show buffer + ((k + 1) * m + i + m) = buffer + ((k + 1) * m + m) + i by omega,
          h _ (by omega) (by omega)]
        congr 1
        omega

structure WriteRequest (mem : ℕ → β) (buffer L m : ℕ) (s : Device β) : Prop where
  mem : s.mem = mem
  maxpacket : s.maxpacket = m
  dirIn : s.dirIn = true
  stalled : s.stalled = false
  reqType : s.request.reqType = .write
  buffer : s.request.buffer = buffer
  size : s.request.size = L
  packets : s.packets = []
  handled : s.handled = []

theorem epIn_run (h : WriteRequest mem buffer L m s) {k : ℕ} (hk : k * m < L) :
    ∃ s', (dataNotify 0 [])^[k] (rtUsbdIoRequest s) = s' ∧ s'.mem = mem ∧ s'.maxpacket = m ∧
      s'.dirIn = true ∧ s'.request.remainSize = L - (k + 1) * m ∧
      (m ≤ L - k * m → s'.request.buffer = buffer + (k + 1) * m) ∧
      s'.packets = pieces mem buffer L m (k + 1) ∧ s'.handled = [] := by
  obtain ⟨hmem, hmax, hdir, hstalled, hreq, hbuffer, hsize, hpackets, hhandled⟩ := h
  induction k with
  | zero =>
    refine ⟨_, rfl, ?_⟩
    simp only [iterate_zero_apply, rtUsbdIoRequest, hstalled, if_true, hreq, rtUsbdEpWrite,
      writeFirst, hmax, hsize, zero_add, one_mul, zero_mul]
    split_ifs with hle
    · simp [dcdEpWrite, hmem, hdir, hpackets, hbuffer, hhandled, pieces, piece, Nat.min_eq_left hle]
    · have hlt : L ≤ m := by omega
      simp [dcdEpWrite, hmem, hdir, hpackets, hbuffer, hhandled, pieces, piece,
        Nat.min_eq_right hlt, Nat.sub_eq_zero_of_le hlt, hle]
  | succ k ih =>
    have hsucc := succ_mul k m
    rw [succ_eq_add_one] at hsucc
    obtain ⟨s', heq, hmem', hmax', hdir', hremain, hbuffer', hpackets', hhandled'⟩ := ih (by omega)
    refine ⟨_, rfl, ?_⟩
    rw [iterate_succ_apply', heq]
    have hnext : L - (k + 1 + 1) * m = L - (k + 1) * m - m := by
      rw [succ_mul (k + 1), sub_add_eq]
    rw [pieces_succ, ← hpackets', hnext, succ_mul (k + 1)]
    simp only [dataNotify, hdir', if_true, hmax', hremain, piece]
    have hplace : s'.request.buffer = buffer + (k + 1) * m := hbuffer' (by omega)
    split_ifs with hle hpos
    · simp [dcdEpWrite, hmem', hmax', hdir', hremain, hhandled', hplace, min_eq_left hle,
        Nat.add_assoc]
    · have hlt : L - (k + 1) * m ≤ m := by omega
      simp [dcdEpWrite, hmem', hmax', hdir', hhandled', hplace, Nat.min_eq_right hlt,
        Nat.sub_eq_zero_of_le hlt, hle]
    · omega

theorem epIn_handler (h : WriteRequest mem buffer L m s) {k : ℕ} (hk : k * m < L)
    (hlast : L ≤ (k + 1) * m) :
    ((dataNotify 0 [])^[k + 1] (rtUsbdIoRequest s)).packets = pieces mem buffer L m (k + 1) ∧
      ((dataNotify 0 [])^[k + 1] (rtUsbdIoRequest s)).handled = [0] := by
  obtain ⟨s', heq, -, hmax, hdir, hremain, -, hpackets, hhandled⟩ := epIn_run h hk
  have hsucc := Nat.succ_mul k m
  rw [succ_eq_add_one] at hsucc
  rw [iterate_succ_apply', heq, dataNotify, if_pos hdir, hmax, hremain,
    Nat.sub_eq_zero_of_le hlast, if_neg (by omega), if_neg (by omega)]
  exact ⟨hpackets, by simp [epHandler, hhandled]⟩

theorem storeAt_append (mem : ℕ → β) (addr : ℕ) (p q : List β) :
    storeAt (storeAt mem addr p) (addr + p.length) q = storeAt mem addr (p ++ q) := by
  funext x
  by_cases hq : addr + p.length ≤ x
  · have hx : addr ≤ x := by omega
    have hnone : p[x - addr]? = none := getElem?_eq_none (by omega)
    have hright : (p ++ q)[x - addr]? = q[x - (addr + p.length)]? := by
      rw [getElem?_append_right (by omega), Nat.sub_sub]
    simp only [storeAt, if_pos hq, if_pos hx, hnone, hright, Option.getD_none]
  · simp only [storeAt, if_neg hq]
    split_ifs with hx
    · rw [getElem?_append_left (by omega)]
    · rfl

theorem storeAt_nil (mem : ℕ → β) (addr : ℕ) : storeAt mem addr [] = mem := by
  funext x
  simp [storeAt]

theorem receive_eq (hdir : s.dirIn = false) (hreq : s.request.reqType = .readFull)
    (hprepared : s.prepared = s.request.buffer) (packet : Bool × List β)
    (hfits : packet.2.length ≤ s.request.remainSize) : receive s packet =
      { s with
        mem := storeAt s.mem s.request.buffer packet.2
        request := { s.request with
          remainSize := s.request.remainSize - packet.2.length
          buffer := s.request.buffer + packet.2.length }
        prepared := s.request.buffer + packet.2.length
        handled := s.handled ++
          if 0 < packet.2.length ∧ packet.2.length = s.request.remainSize then [s.request.size]
          else [] } := by
  obtain ⟨direct, bytes⟩ := packet
  obtain ⟨mem, maxpacket, dirIn, stalled, ⟨reqType, buffer, size, remainSize⟩, requestList,
    prepared, packets, handled⟩ := s
  dsimp only at hdir hreq hprepared hfits ⊢
  subst hdir hreq hprepared
  rcases Nat.eq_zero_or_pos bytes.length with hzero | hpos
  · obtain rfl := eq_nil_of_length_eq_zero hzero
    cases direct <;> by_cases hnone : remainSize = 0 <;>
      simp [receive, dataNotify, storeAt_nil, hnone]
  · have hremain : remainSize ≠ 0 := by omega
    have hlast : remainSize - bytes.length = 0 ↔ bytes.length = remainSize := by omega
    have hsize : bytes ≠ [] := ne_nil_of_length_pos hpos
    cases direct <;> by_cases hdone : bytes.length = remainSize <;>
      simp [receive, dataNotify, hremain, hlast, hdone, hsize, epHandler]

structure ReadRequest (mem : ℕ → β) (buffer L : ℕ) (s : Device β) : Prop where
  mem : s.mem = mem
  dirIn : s.dirIn = false
  stalled : s.stalled = false
  reqType : s.request.reqType = .readFull
  buffer : s.request.buffer = buffer
  size : s.request.size = L
  handled : s.handled = []

def received (arrived : List (Bool × List β)) : List β := (arrived.map Prod.snd).flatten

theorem received_append (arrived : List (Bool × List β)) (packet : Bool × List β) :
    received (arrived ++ [packet]) = received arrived ++ packet.2 := by
  simp [received]

theorem epOut_run (h : ReadRequest mem buffer L s) (hL : 1 ≤ L)
    (arrived : List (Bool × List β)) (htotal : (received arrived).length ≤ L) :
    ∃ s', arrived.foldl receive (rtUsbdIoRequest s) = s' ∧ s'.dirIn = false ∧
      s'.request.reqType = .readFull ∧ s'.request.size = L ∧
      s'.request.remainSize = L - (received arrived).length ∧
      s'.request.buffer = buffer + (received arrived).length ∧
      s'.prepared = buffer + (received arrived).length ∧
      s'.mem = storeAt mem buffer (received arrived) ∧
      s'.handled = if (received arrived).length = L then [L] else [] := by
  obtain ⟨hmem, hdir, hstalled, hreq, hbuffer, hsize, hhandled⟩ := h
  induction arrived using reverseRecOn with
  | nil =>
    refine ⟨_, rfl, ?_⟩
    have hne : ¬0 = L := by omega
    simp [rtUsbdIoRequest, hstalled, hreq, received, hdir, hsize, hbuffer, hmem, hhandled,
      storeAt_nil, hne]
  | append_singleton arrived packet ih =>
    rw [received_append, length_append] at htotal
    obtain ⟨s', heq, hdir', hreq', hsize', hremain, hbuffer', hprepared, hmem', hhandled'⟩ :=
      ih (by omega)
    refine ⟨_, rfl, ?_⟩
    rw [foldl_append, heq, foldl_cons, foldl_nil, received_append,
      length_append, receive_eq hdir' hreq' (hprepared.trans hbuffer'.symm) packet (by omega)]
    refine ⟨hdir', hreq', hsize', ?_, ?_, ?_, ?_, ?_⟩
    · simp only [hremain, Nat.sub_sub]
    · simp only [hbuffer', add_assoc]
    · simp only [hbuffer', add_assoc]
    · simp only [hmem', hbuffer', storeAt_append]
    · simp only [hhandled', hremain, hsize']
      split_ifs
      all_goals first
        | rfl
        | omega

/-- The transfers of a buffer of size `L` in packets of at most `m` bytes: what the control endpoint
and an IN endpoint send, with the packets of the latter taken one by one, and how an OUT endpoint is
filled. -/
structure Packetises (mem : ℕ → β) (buffer L m : ℕ) : Prop where
  control : ∀ s : Device β, s.mem = mem → s.maxpacket = m → s.packets = [] → ∀ k,
    (rtUsbdEp0InHandler^[k] (rtUsbdEp0Write buffer L s)).packets = pieces mem buffer L m (k + 1)
  epIn : ∀ s : Device β, WriteRequest mem buffer L m s → ∀ k, k * m < L →
    ((dataNotify 0 [])^[k] (rtUsbdIoRequest s)).packets = pieces mem buffer L m (k + 1) ∧
    ((dataNotify 0 [])^[k] (rtUsbdIoRequest s)).handled = [] ∧
    (L ≤ (k + 1) * m →
      ((dataNotify 0 [])^[k + 1] (rtUsbdIoRequest s)).packets = pieces mem buffer L m (k + 1) ∧
      ((dataNotify 0 [])^[k + 1] (rtUsbdIoRequest s)).handled = [0])
  epOut : ∀ s : Device β, ReadRequest mem buffer L s → ∀ arrived : List (Bool × List β),
    (received arrived).length ≤ L →
    (arrived.foldl receive (rtUsbdIoRequest s)).mem = storeAt mem buffer (received arrived) ∧
    (arrived.foldl receive (rtUsbdIoRequest s)).handled =
      if (received arrived).length = L then [L] else []
  whole : ∀ n, L ≤ n * m → (pieces mem buffer L m n).flatten = bytesAt mem buffer L

def controlEndpoint (mem : ℕ → β) (m : ℕ) : Device β :=
  ⟨mem, m, true, false, ⟨.write, 0, 0, 0⟩, [], 0, [], []⟩

/-- The control endpoint sends the second packet again and again. -/
theorem packetises_iff (mem : ℕ → β) (buffer L m : ℕ) (hL : 1 ≤ L) (hm : 1 ≤ m) :
    Packetises mem buffer L m ↔
      ∀ i, m ≤ i → i + m < L → mem (buffer + (i + m)) = mem (buffer + i) := by
  rw [← sent_eq_piece_iff hm]
  constructor
  · intro h k
    obtain ⟨s', heq, -, -, -, -, hpackets⟩ :
        ∃ s', rtUsbdEp0InHandler^[k] (rtUsbdEp0Write buffer L (controlEndpoint mem m)) = s' ∧ _ :=
      ep0_run hm rfl rfl rfl k
    have hpieces := h.control (controlEndpoint mem m) rfl rfl rfl k
    rw [heq, hpackets, pieces, map_inj_left] at hpieces
    exact hpieces k (mem_range.2 (lt_succ_self k))
  · intro h
    refine ⟨fun s hmem hmax hpackets k => ?_, fun s hs k hk => ?_, fun s hs arrived htotal => ?_,
      fun n hn => ?_⟩
    · obtain ⟨s', heq, -, -, -, -, hsent⟩ := ep0_run hm hmem hmax hpackets k
      rw [heq, hsent, pieces, map_inj_left]
      exact fun j _ => h j
    · obtain ⟨s', heq, -, -, -, -, -, hpackets, hhandled⟩ := epIn_run hs hk
      rw [heq]
      exact ⟨hpackets, hhandled, epIn_handler hs hk⟩
    · obtain ⟨s', heq, -, -, -, -, -, -, hmem, hhandled⟩ := epOut_run hs hL arrived htotal
      rw [heq]
      exact ⟨hmem, hhandled⟩
    · rw [pieces_flatten, min_eq_left hn]

theorem packetises_two_packets : Packetises (fun i => UInt8.ofNat i) 0 2 1 :=
  (packetises_iff (fun i => UInt8.ofNat i) 0 2 1 (by decide) (by decide)).2 fun i _ _ => by omega

/-- Of three packets the third sends the second again. -/
theorem not_packetises : ¬∀ (mem : ℕ → UInt8) (buffer L m : ℕ), 1 ≤ L → 1 ≤ m →
    Packetises mem buffer L m := by
  intro h
  have hpieces := (h (fun i => UInt8.ofNat i) 0 3 1 (by decide) (by decide)).control
    (controlEndpoint _ 1) rfl rfl rfl 2
  cases hpieces

end RtThread.Usbd
