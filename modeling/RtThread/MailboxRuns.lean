import RtThread.MailboxModel

/-!
# The order of mails

The mails which have been taken out, followed by the unread ones, are those which
have been put in.  Waiting, timeouts and failures leave the mailbox alone, so it is
enough to look at the section which stores a mail and at the one which removes it.
-/

namespace RtThread.Mailbox

open List CircularBuffer Ipc

def Return.sentMail (r : Return) : Option UInt32 :=
  match r.call, r.code with
  | .send value, .eok => some value
  | _, _ => none

def Return.receivedMail (r : Return) : Option UInt32 :=
  match r.call, r.code with
  | .recv, .eok => r.value
  | _, _ => none

/-- The returns account for every mail stored and removed. -/
structure Accounts (returns : List Return) (stored removed : List UInt32) : Prop where
  sent : returns.filterMap Return.sentMail = stored
  received : returns.filterMap Return.receivedMail = removed
  storedBy : returns.flatMap Return.stored = stored
  removedBy : returns.flatMap Return.removed = removed
  failed : ∀ r ∈ returns, r.code ≠ .eok → r.stored = [] ∧ r.removed = []

/-- The mails in the pool are those stored and not yet removed. -/
structure MailboxInv (c : MailboxConfig) (s : MailboxState) : Prop where
  entry_le : s.entry ≤ c.size
  outOffset_lt : s.outOffset < c.size
  inOffset_eq : s.inOffset = (s.outOffset + s.entry) % c.size
  conserved : s.removed ++ unread c s = s.stored
  accounts : Accounts s.returns s.stored s.removed
  waiting : ∀ t f, s.frame t = some f → f.stored = [] ∧ f.removed = []

variable {c : MailboxConfig} {s s' : MailboxState} {t : Thread} {f : Frame}

theorem nextOffset_eq (c : MailboxConfig) {offset : ℕ} (hlt : offset < c.size) :
    nextOffset c.size offset = (offset + 1) % c.size := by
  have hsize := c.size_le
  unfold nextOffset
  rw [Word.succ16_eq_of_lt (by omega)]
  exact next_eq_mod hlt

namespace Accounts

variable {returns : List Return} {stored removed : List UInt32}

section

variable (haccounts : Accounts returns stored removed)
include haccounts

theorem append {r : Return} (hsent : r.sentMail.toList = r.stored)
    (hreceived : r.receivedMail.toList = r.removed)
    (hfailed : r.code ≠ .eok → r.stored = [] ∧ r.removed = []) :
    Accounts (returns ++ [r]) (stored ++ r.stored) (removed ++ r.removed) := by
  constructor
  · cases hmail : r.sentMail <;> simp [filterMap_append, haccounts.sent, ← hsent, hmail]
  · cases hmail : r.receivedMail <;> simp [filterMap_append, haccounts.received, ← hreceived, hmail]
  · simp [flatMap_append, haccounts.storedBy]
  · simp [flatMap_append, haccounts.removedBy]
  · intro r' hr' hne
    rw [mem_append, mem_singleton] at hr'
    obtain hold | rfl := hr'
    · exact haccounts.failed r' hold hne
    · exact hfailed hne

theorem fail {r : Return} (hcode : r.code ≠ .eok)
    (hstored : r.stored = []) (hremoved : r.removed = []) :
    Accounts (returns ++ [r]) stored removed := by
  have hsent : r.sentMail = none := by
    unfold Return.sentMail
    split
    · exact absurd ‹_› hcode
    · rfl
  have hreceived : r.receivedMail = none := by
    unfold Return.receivedMail
    split
    · exact absurd ‹_› hcode
    · rfl
  have happend := haccounts.append (r := r) (by rw [hsent, hstored]; rfl)
    (by rw [hreceived, hremoved]; rfl) fun _ => ⟨hstored, hremoved⟩
  rwa [hstored, hremoved, append_nil, append_nil] at happend

theorem send (value : UInt32) :
    Accounts (returns ++ [⟨.send value, .eok, none, [value], []⟩]) (stored ++ [value]) removed := by
  simpa using haccounts.append (r := ⟨.send value, .eok, none, [value], []⟩) rfl rfl
    fun hne => absurd rfl hne

theorem recv (value : UInt32) :
    Accounts (returns ++ [⟨.recv, .eok, some value, [], [value]⟩]) stored (removed ++ [value]) := by
  simpa using haccounts.append (r := ⟨.recv, .eok, some value, [], [value]⟩) rfl rfl
    fun hne => absurd rfl hne

end

end Accounts

namespace MailboxInv

section

variable (hinv : MailboxInv c s)
include hinv

theorem of_mailbox (core : Core WaitList) (tick : ℕ) :
    MailboxInv c { s with core := core, tick := tick } :=
  ⟨hinv.entry_le, hinv.outOffset_lt, hinv.inOffset_eq, hinv.conserved, hinv.accounts, hinv.waiting⟩

theorem setFrame (core : Core WaitList) (frame : Option Frame)
    (hframe : ∀ f, frame = some f → f.stored = [] ∧ f.removed = []) :
    MailboxInv c { s with core := core, frame := Function.update s.frame t frame } := by
  refine ⟨hinv.entry_le, hinv.outOffset_lt, hinv.inOffset_eq, hinv.conserved, hinv.accounts, ?_⟩
  intro u f hf
  by_cases hut : u = t
  · rw [hut] at hf
    exact hframe f (by simpa using hf)
  · exact hinv.waiting u f (by simpa [Function.update_of_ne hut] using hf)

theorem fail {code : ReturnCode} {value : Option UInt32}
    (hcode : code ≠ .eok) (hf : f.stored = [] ∧ f.removed = []) :
    MailboxInv c (returned s f code value) :=
  ⟨hinv.entry_le, hinv.outOffset_lt, hinv.inOffset_eq, hinv.conserved,
    hinv.accounts.fail hcode hf.1 hf.2, hinv.waiting⟩

theorem storeMail_unread (hroom : s.entry ≠ c.size) (value : UInt32) :
    (storeMail c s value).entry = s.entry + 1 ∧
      unread c (storeMail c s value) = unread c s ++ [value] := by
  have hle := hinv.entry_le
  have hsize := c.size_le
  have hentry : Word.succ16 s.entry = s.entry + 1 := Word.succ16_eq_of_lt (by omega)
  refine ⟨hentry, ?_⟩
  simp only [unread, storeMail, hentry, hinv.inOffset_eq]
  exact window_push (by omega) value

theorem removeMail_unread (hmail : s.entry ≠ 0) : (removeMail c s).entry = s.entry - 1 ∧
      unread c s = s.msgPool s.outOffset :: unread c (removeMail c s) := by
  have hentry : Word.pred16 s.entry = s.entry - 1 :=
    Word.pred16_eq_of_pos (Nat.pos_of_ne_zero hmail)
  refine ⟨hentry, ?_⟩
  have hsucc : s.entry = s.entry - 1 + 1 := by omega
  calc
    unread c s = window s.msgPool c.size s.outOffset (s.entry - 1 + 1) := by
      rw [unread, ← hsucc]
    _ = s.msgPool s.outOffset :: window s.msgPool c.size (s.outOffset + 1) (s.entry - 1) := by
      rw [window_cons, Nat.mod_eq_of_lt hinv.outOffset_lt]
    _ = s.msgPool s.outOffset :: unread c (removeMail c s) := by
      simp only [unread, removeMail, nextOffset_eq c hinv.outOffset_lt, hentry, window_mod]

theorem sendLoop {value : UInt32} (hcall : f.call = .send value)
    (hf : f.stored = [] ∧ f.removed = []) : MailboxInv c (sendLoop c s t f value) := by
  unfold Mailbox.sendLoop
  by_cases hfull : s.entry = c.size
  · rw [if_pos hfull]
    by_cases htime : f.timeout = 0
    · simp only [htime, if_true]
      exact (hinv.of_mailbox _ _).fail ReturnCode.noConfusion hf
    · simp only [htime, if_false]
      apply (hinv.of_mailbox _ _).setFrame
      intro f' hf'
      rw [← Option.some.inj hf']
      exact hf
  · rw [if_neg hfull]
    obtain ⟨hentry, hunread⟩ := hinv.storeMail_unread hfull value
    have hsize := hinv.entry_le
    simp only [Mailbox.returned, hcall, hf.1, hf.2, nil_append]
    constructor
    · exact hentry.le.trans (by omega)
    · exact hinv.outOffset_lt
    · have hin : s.inOffset < c.size := by
        rw [hinv.inOffset_eq]
        exact Nat.mod_lt _ c.size_pos
      calc
        nextOffset c.size s.inOffset = (s.inOffset + 1) % c.size := nextOffset_eq c hin
        _ = (s.outOffset + (s.entry + 1)) % c.size := by
          rw [hinv.inOffset_eq, Nat.mod_add_mod, Nat.add_assoc]
        _ = (s.outOffset + (storeMail c s value).entry) % c.size := by rw [hentry]
    · calc
        s.removed ++ unread c (storeMail c s value) =
            (s.removed ++ unread c s) ++ [value] := by rw [hunread, append_assoc]
        _ = s.stored ++ [value] := by rw [hinv.conserved]
    · exact hinv.accounts.send value
    · exact hinv.waiting

theorem recvLoop (hcall : f.call = .recv)
    (hf : f.stored = [] ∧ f.removed = []) : MailboxInv c (recvLoop c s t f) := by
  unfold Mailbox.recvLoop
  by_cases hempty : s.entry = 0
  · rw [if_pos hempty]
    by_cases htime : f.timeout = 0
    · simp only [htime, if_true]
      exact (hinv.of_mailbox _ _).fail ReturnCode.noConfusion hf
    · simp only [htime, if_false]
      apply (hinv.of_mailbox _ _).setFrame
      intro f' hf'
      rw [← Option.some.inj hf']
      exact hf
  · rw [if_neg hempty]
    obtain ⟨hentry, hunread⟩ := hinv.removeMail_unread hempty
    have hnext := nextOffset_eq c hinv.outOffset_lt
    simp only [Mailbox.returned, hcall, hf.1, hf.2, nil_append]
    constructor
    · exact hentry.le.trans ((Nat.sub_le _ _).trans hinv.entry_le)
    · change nextOffset c.size s.outOffset < c.size
      rw [hnext]
      exact Nat.mod_lt _ c.size_pos
    · calc
        s.inOffset = (s.outOffset + s.entry) % c.size := hinv.inOffset_eq
        _ = (s.outOffset + 1 + (s.entry - 1)) % c.size := by
          rw [Nat.add_assoc, Nat.add_sub_cancel' (Nat.one_le_iff_ne_zero.mpr hempty)]
        _ = (nextOffset c.size s.outOffset + (removeMail c s).entry) % c.size := by
          rw [hnext, hentry, Nat.mod_add_mod]
    · calc
        (s.removed ++ [s.msgPool s.outOffset]) ++ unread c (removeMail c s) =
            s.removed ++ unread c s := by rw [hunread]; simp
        _ = s.stored := hinv.conserved
    · exact hinv.accounts.recv _
    · exact hinv.waiting

theorem loop (hf : f.stored = [] ∧ f.removed = []) : MailboxInv c (loop c s t f) := by
  unfold Mailbox.loop
  cases hcall : f.call with
  | send value => exact hinv.sendLoop hcall hf
  | recv => exact hinv.recvLoop hcall hf

theorem rtMbSendWait (t : Thread) (value : UInt32) (timeout : ℤ) :
    MailboxInv c (rtMbSendWait c s t value timeout) := by
  unfold Mailbox.rtMbSendWait
  by_cases hfull : s.entry = c.size ∧ timeout = 0
  · simp only [if_pos hfull]
    exact hinv.fail ReturnCode.noConfusion ⟨rfl, rfl⟩
  · simp only [if_neg hfull]
    exact hinv.loop ⟨rfl, rfl⟩

theorem rtMbRecv (t : Thread) (timeout : ℤ) : MailboxInv c (rtMbRecv c s t timeout) := by
  unfold Mailbox.rtMbRecv
  by_cases hempty : s.entry = 0 ∧ timeout = 0
  · simp only [if_pos hempty]
    exact hinv.fail ReturnCode.noConfusion ⟨rfl, rfl⟩
  · simp only [if_neg hempty]
    exact hinv.loop ⟨rfl, rfl⟩

theorem resumed (hframe : s.frame t = some f) : MailboxInv c (resumed c s t f) := by
  have hf := hinv.waiting t f hframe
  have hcleared := hinv.setFrame (t := t) s.core none (by simp)
  unfold Mailbox.resumed
  by_cases hcode : (s.core.threads t).error ≠ .eok
  · simp only [if_pos hcode]
    exact hcleared.fail (ReturnCode.ofError_ne_eok hcode) hf
  · simp only [if_neg hcode]
    exact hcleared.loop hf

theorem execute (action : Action) : MailboxInv c (execute c s action) := by
  cases action with
  | send t value => exact hinv.rtMbSendWait t value 0
  | sendWait t value time => exact hinv.rtMbSendWait t value time
  | recv t time => exact hinv.rtMbRecv t time
  | resumed t =>
      cases hframe : s.frame t with
      | none => simpa only [Mailbox.execute, hframe] using hinv
      | some f => simpa only [Mailbox.execute, hframe] using hinv.resumed hframe
  | timeout t | tick => exact hinv.of_mailbox _ _

end

theorem of_reachable {guard : MailboxState → Action → Prop}
    (hreach : (mailboxSystem c).Reachable guard s) :
    MailboxInv c s := by
  apply hreach.invariant
  · rintro s ⟨-, hthreads, hentry, hin, hout, hstored, hremoved, hreturns⟩
    constructor
    · simp [hentry]
    · rw [hout]
      exact c.size_pos
    · simp [hentry, hin, hout]
    · simp [unread, hentry, hstored, hremoved]
    · rw [hstored, hremoved, hreturns]
      constructor <;> simp
    · intro t f hf
      rw [(hthreads t).2.2] at hf
      cases hf
  · rintro s action s' hinv - ⟨-, rfl⟩
    exact hinv.execute action

end MailboxInv

/-- The values of the successful sends and receives, in the order in which the mails were
put in and taken out. -/
def sentMails (s : MailboxState) : List UInt32 := s.returns.filterMap Return.sentMail

def receivedMails (s : MailboxState) : List UInt32 :=
  s.returns.filterMap Return.receivedMail

/-- In every run the mailbox is a bounded queue, and a call which fails leaves it alone. -/
theorem mailbox_fifo (c : MailboxConfig) (s : MailboxState)
    (hreach : (mailboxSystem c).Reachable (fun _ _ => True) s) : s.entry ≤ c.size ∧
      s.inOffset = (s.outOffset + s.entry) % c.size ∧ sentMails s = s.stored ∧
      receivedMails s = s.removed ∧ receivedMails s ++ unread c s = sentMails s ∧
      s.returns.flatMap Return.stored = s.stored ∧ s.returns.flatMap Return.removed = s.removed ∧
      ∀ r ∈ s.returns, r.code ≠ .eok → r.stored = [] ∧ r.removed = [] := by
  have hinv := MailboxInv.of_reachable hreach
  have haccounts := hinv.accounts
  have hconserved : receivedMails s ++ unread c s = sentMails s := by
    rw [receivedMails, sentMails, haccounts.sent, haccounts.received, hinv.conserved]
  exact ⟨hinv.entry_le, hinv.inOffset_eq, haccounts.sent, haccounts.received, hconserved,
    haccounts.storedBy, haccounts.removedBy, haccounts.failed⟩

instance (s : MailboxState) (t : Thread) (timeout : ℤ) : Decidable (MayCall s t timeout) :=
  inferInstanceAs (Decidable (_ ∨ _))

instance (s : MailboxState) (action : Action) : Decidable (action.Enabled s) :=
  match action with
  | .send t _ => inferInstanceAs (Decidable (MayCall s t 0))
  | .sendWait t _ time => inferInstanceAs (Decidable (MayCall s t time))
  | .recv t time => inferInstanceAs (Decidable (MayCall s t time))
  | .resumed _ => inferInstanceAs (Decidable (_ ∧ _))
  | .timeout _ => inferInstanceAs (Decidable (_ = _))
  | .tick => isTrue trivial

def sampleConfig : MailboxConfig := ⟨2, .fifo, Nat.two_pos, by norm_num⟩

def sampleInit : MailboxState where
  core := ⟨fun _ => ⟨.ready, .eok, 10, false⟩, fun _ => []⟩
  tick := 0
  msgPool := fun _ => 0
  entry := 0
  inOffset := 0
  outOffset := 0
  frame := fun _ => none
  stored := []
  removed := []
  returns := []

theorem init_sampleInit (c : MailboxConfig) : (mailboxSystem c).init sampleInit :=
  ⟨fun _ => rfl, fun _ => ⟨rfl, rfl, rfl⟩, rfl, rfl, rfl, rfl, rfl, rfl⟩

theorem mailbox_fifo_in_sample :
    ∃ s, (mailboxSystem sampleConfig).Reachable (fun _ _ => True) s ∧
      (s.entry, receivedMails s, sentMails s) = (2, [5], [5, 6, 7]) ∧
      receivedMails s ++ unread sampleConfig s = sentMails s := by
  have hrun : (TransitionSystem.tryRun (fun s action => decide (Action.Enabled s action))
      (execute sampleConfig)
      [.recv firstThread 9, .send secondThread 5, .recv thirdThread 0,
        .resumed firstThread, .timeout firstThread, .send secondThread 6, .tick,
        .sendWait secondThread 7 0, .sendWait thirdThread 8 3, .timeout thirdThread,
        .resumed thirdThread]
      sampleInit).map (fun s => (s.entry, receivedMails s, sentMails s)) =
      some (2, [5], [5, 6, 7]) := by
    decide +kernel
  obtain ⟨s, hreach, hvalues⟩ := TransitionSystem.exists_tryRun (fun _ _ => True)
    (init_sampleInit sampleConfig) hrun
    fun _ _ htest => ⟨trivial, of_decide_eq_true htest, rfl⟩
  exact ⟨s, hreach, hvalues, (mailbox_fifo sampleConfig s hreach).2.2.2.2.1⟩

end RtThread.Mailbox
