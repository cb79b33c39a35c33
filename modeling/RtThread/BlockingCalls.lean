import RtThread.IpcModel

/-!
# Calls which wait

What the calls of `ipc.c` and of the device drivers have in common when they may
suspend the calling thread: the codes they return, the thread they resume, and the
waiting time which is left when a resumed thread finds that it has to wait again.
-/

namespace RtThread.Ipc

inductive ReturnCode where
  | eok
  | error
  | etimeout
  | efull
  | eempty
  deriving DecidableEq

def ReturnCode.ofError : ErrorCode → ReturnCode
  | .eok => .eok
  | .error => .error
  | .etimeout => .etimeout

theorem ReturnCode.ofError_ne_eok {code : ErrorCode} (hne : code ≠ .eok) : ofError code ≠ .eok := by
  cases code with
  | eok => contradiction
  | error | etimeout => exact ReturnCode.noConfusion

def rtIpcListResume {κ : Type} (k : κ) (s : Core κ) : Core κ :=
  match s.wait k with
  | [] => s
  | t :: _ => rtThreadResume s t

/-- `timeout` after a wait from tick `start` to tick `now`; the difference of the ticks
is unsigned and the result is signed, both with 32 bits. -/
def remaining (timeout : ℤ) (start now : ℕ) : ℤ :=
  if 0 < timeout then
    max 0 (Int.bmod (timeout - Word.sub32 now start) 4294967296)
  else timeout

theorem rtIpcListResume_wait_nil {κ : Type} {s : Core κ} {k l : κ} (hnil : s.wait l = []) :
    (rtIpcListResume k s).wait l = [] := by
  unfold rtIpcListResume
  cases s.wait k with
  | nil => exact hnil
  | cons t rest =>
    simp only [rtThreadResume]
    split_ifs
    · exact hnil
    · simp [makeReady, hnil]

namespace Linked

variable {κ : Type} {s : Core κ} {t : Thread} {k : κ}

section

variable (hlinked : Linked s)
include hlinked

theorem rtIpcListResume (k : κ) : Linked (rtIpcListResume k s) := by
  unfold Ipc.rtIpcListResume
  cases hlist : s.wait k with
  | nil => exact hlinked
  | cons t rest =>
    have hmem : t ∈ s.wait k := by simp [hlist]
    simp only [hlinked.rtThreadResume_eq hmem]
    exact hlinked.woken t _

theorem rtIpcListResume_wait {rest : List Thread}
    (hlist : s.wait k = t :: rest) : (Ipc.rtIpcListResume k s).wait k = rest := by
  have hmem : t ∈ s.wait k := by simp [hlist]
  simp only [Ipc.rtIpcListResume, hlist, hlinked.rtThreadResume_eq hmem, woken_wait,
    List.erase_cons_head]

theorem mem_of_rtIpcListResume {l : κ}
    (hmem : t ∈ (Ipc.rtIpcListResume k s).wait l) : t ∈ s.wait l := by
  unfold Ipc.rtIpcListResume at hmem
  cases hlist : s.wait k with
  | nil =>
    rw [hlist] at hmem
    exact hmem
  | cons u rest =>
    have hhead : u ∈ s.wait k := by simp [hlist]
    simp only [hlist, hlinked.rtThreadResume_eq hhead, woken_wait] at hmem
    exact List.mem_of_mem_erase hmem

theorem rtIpcListResume_ready (hready : (s.threads t).stat = .ready ∨ (s.wait k).head? = some t) :
    ((Ipc.rtIpcListResume k s).threads t).stat = .ready := by
  unfold Ipc.rtIpcListResume
  cases hlist : s.wait k with
  | nil =>
    rw [hlist, List.head?_nil] at hready
    exact hready.resolve_right (by simp)
  | cons u rest =>
    have hhead : u ∈ s.wait k := by simp [hlist]
    simp only [hlinked.rtThreadResume_eq hhead]
    by_cases htu : t = u
    · rw [htu, woken_self]
    · rw [woken_of_ne htu]
      rw [hlist, List.head?_cons, Option.some.injEq] at hready
      exact hready.resolve_right (Ne.symm htu)

theorem suspend [DecidableEq κ] (hready : (s.threads t).stat = .ready) (k : κ)
    (flag : IpcFlag) (time : ℤ) :
    Linked (startTimer (rtIpcListSuspend (Ipc.setError s t .eok) k flag t) t time) := by
  apply (hlinked.setError t .eok).asleep
  simp [hready]

end

end Linked
end RtThread.Ipc
