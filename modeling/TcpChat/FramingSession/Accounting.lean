import TcpChat.FramingSession.Model

/-!
# The byte counter of a session among its callers

The two overloads of `SendMsg` change `m_txQueue` and `m_txBytesQueued` in opposite orders, `SendLoop` and `Stop`
in a third and fourth place.  What the thread inside the critical section still owes is read off its position.

* `Accounts` — the counter, with what the thread has still to add, is the sum of the queued sizes, with what the
  thread has still to queue or to take off;
* `Within` — the counter, with what the thread is about to add, is at most `TX_HWM_BYTES`;
* `txBytesQueued_spec` — both, whenever `m_txMutex` is free.
-/

namespace TcpChat.FramingSession

open TcpChat.Framing TcpChat.Lib
open TcpChat.FramingServer (txHwmBytes)

/-- Bytes that a caller has put into the queue and not counted. -/
def CallerPc.uncounted : CallerPc → ℕ
  | .enqueued c => if c.overload = .copy then c.msg.length else 0
  | _ => 0

/-- Bytes that a caller has counted and not put into the queue. -/
def CallerPc.stale : CallerPc → ℕ
  | .enqueued c => if c.overload = .move then c.msg.length else 0
  | _ => 0

/-- Bytes that a caller is about to count. -/
def CallerPc.due (active : Bool) : CallerPc → ℕ
  | .retest c => if active then c.msg.length else 0
  | .enqueue c => c.msg.length
  | .enqueued c => if c.overload = .copy then c.msg.length else 0
  | _ => 0

/-- Bytes that `SendLoop` has taken from the queue and that are still counted. -/
def SendPc.stale : SendPc → ℕ
  | .sub msg => msg.length
  | _ => 0

/-- Bytes still counted when `Stop` has cleared the queue. -/
def StopPc.stale (bytes : ℕ) : StopPc → ℕ
  | .zero => bytes
  | _ => 0

namespace ClientSession

def uncounted (s : ClientSession) : Thread → ℕ
  | .caller k => (s.caller k).uncounted
  | _ => 0

def stale (s : ClientSession) : Thread → ℕ
  | .caller k => (s.caller k).stale
  | .send => s.send.stale
  | .stop => s.stop.stale s.txBytesQueued
  | .recv => 0

def due (s : ClientSession) : Thread → ℕ
  | .caller k => (s.caller k).due s.active
  | _ => 0

/-- The counter and the queue agree up to what the thread `t` owes. -/
def Accounts (s : ClientSession) (t : Thread) : Prop :=
  s.txBytesQueued + s.uncounted t = (s.txQueue.map List.length).sum + s.stale t

/-- The counter stays below the high-water mark. -/
def Within (s : ClientSession) (t : Thread) : Prop := s.txBytesQueued + s.due t ≤ txHwmBytes

variable {s s' : ClientSession} {t u : Thread} {x : Input}

/-- A thread outside the critical section owes nothing. -/
theorem owes_of_not_holds (h : ¬ s.HoldsTx t) : s.uncounted t = 0 ∧ s.stale t = 0 ∧ s.due t = 0 := by
  cases t with
  | caller k =>
    simp only [HoldsTx] at h
    simp only [uncounted, stale, due]
    cases hp : s.caller k <;> simp_all [CallerPc.HoldsTx, CallerPc.uncounted, CallerPc.stale, CallerPc.due]
  | recv => exact ⟨rfl, rfl, rfl⟩
  | send =>
    simp only [HoldsTx] at h
    simp only [uncounted, stale, due]
    cases hp : s.send <;> simp_all [SendPc.HoldsTx, SendPc.stale]
  | stop =>
    simp only [HoldsTx] at h
    simp only [uncounted, stale, due]
    cases hp : s.stop <;> simp_all [StopPc.HoldsTx, StopPc.stale]

/-! ## The steps -/

theorem step_accounts (h : s.step (t, x) = some s') (ha : s.Accounts t) : s'.Accounts t := by
  simp only [Accounts] at ha ⊢
  cases t <;> simp only [step, callerStep, recvStep, sendStep, stopStep] at h
  all_goals repeat' split at h
  all_goals simp only [Option.some.injEq, reduceCtorEq] at h
  all_goals subst h
  all_goals simp only [uncounted, stale, setCaller, Function.update_self, *] at ha ⊢
  all_goals simp_all [CallerPc.uncounted, CallerPc.stale, SendPc.stale, StopPc.stale]
  all_goals omega

/-- A caller whose wait predicate holds and who then finds the session active has room. -/
theorem within_of_hasRoom {size : ℕ} (h : s.HasRoom size) (hw : s.txBytesQueued ≤ txHwmBytes) :
    s.txBytesQueued + (if s.active = true then size else 0) ≤ txHwmBytes := by
  rcases h with h | h
  · simpa [h] using hw
  · split <;> omega

theorem step_within (h : s.step (t, x) = some s') (hw : s.Within t) : s'.Within t := by
  simp only [Within] at hw ⊢
  cases t <;> simp only [step, callerStep, recvStep, sendStep, stopStep] at h
  all_goals repeat' split at h
  all_goals simp only [Option.some.injEq, reduceCtorEq] at h
  all_goals subst h
  all_goals simp only [due, setCaller, Function.update_self, *] at hw ⊢
  all_goals simp_all [CallerPc.due]
  all_goals first
    | exact within_of_hasRoom ‹_› hw
    | omega

/-- A thread outside the critical section leaves the queue and the counter alone. -/
theorem step_keeps (h : s.step (t, x) = some s') (ht : ¬ s.HoldsTx t) :
    s'.txBytesQueued = s.txBytesQueued ∧ s'.txQueue = s.txQueue := by
  cases t <;> simp only [step, callerStep, recvStep, sendStep, stopStep] at h
  all_goals repeat' split at h
  all_goals simp only [Option.some.injEq, reduceCtorEq] at h
  all_goals subst h
  all_goals first
    | exact ⟨rfl, rfl⟩
    | simp [HoldsTx, CallerPc.HoldsTx, SendPc.HoldsTx, StopPc.HoldsTx, *] at ht

/-- What the other threads owe does not grow. -/
theorem step_owes (h : s.step (t, x) = some s') (hu : u ≠ t) (hb : s'.txBytesQueued = s.txBytesQueued) :
    s'.uncounted u = s.uncounted u ∧ s'.stale u = s.stale u ∧ s'.due u ≤ s.due u := by
  have hpc := step_pc h
  cases u with
  | caller k =>
    simp only [uncounted, stale, due, hpc.caller k (Ne.symm hu), true_and]
    cases s.caller k <;> simp only [CallerPc.due, le_refl]
    by_cases ha : s.active = true
    · rw [if_pos ha]
      split
      · exact le_rfl
      · exact Nat.zero_le _
    · simp [step_inactive h (by simpa using ha)]
  | recv => exact ⟨rfl, rfl, le_rfl⟩
  | send => simp only [uncounted, stale, due, hpc.send (Ne.symm hu), le_refl, and_self]
  | stop => simp only [uncounted, stale, due, hpc.stop (Ne.symm hu), hb, le_refl, and_self]

end ClientSession

/-! ## In every reachable state -/

variable {ok : ClientSession → Thread × Input → Prop} {s : ClientSession}

/-- **The byte counter is right and bounded**, up to what the holder of the mutex owes. -/
theorem balanced (h : session.Reach ok s) (t : Thread) (ht : s.txMutex = none ∨ s.txMutex = some t) :
    s.Accounts t ∧ s.Within t := by
  refine h.invariant (fun s => ∀ t, s.txMutex = none ∨ s.txMutex = some t → s.Accounts t ∧ s.Within t) ?_ ?_ t ht
  · rintro s rfl t -
    cases t <;> exact ⟨rfl, Nat.zero_le _⟩
  · rintro s ⟨t, x⟩ s' hr ih - hst
    have hr' : session.Reachable s := hr.mono fun _ _ _ => trivial
    refine (tx_owned hr').guarded (tx_owned (hr'.step trivial hst)) (ClientSession.step_tx hst) ?_ ?_ ?_ ih
    · exact fun ⟨ha, hw⟩ => ⟨ClientSession.step_accounts hst ha, ClientSession.step_within hst hw⟩
    · rintro u v hu hv ⟨ha, hw⟩
      obtain ⟨hu1, hu2, hu3⟩ := ClientSession.owes_of_not_holds hu
      obtain ⟨hv1, hv2, hv3⟩ := ClientSession.owes_of_not_holds hv
      rw [ClientSession.Accounts, hu1, hu2] at ha
      rw [ClientSession.Within, hu3] at hw
      exact ⟨by rw [ClientSession.Accounts, hv1, hv2, ha], by rwa [ClientSession.Within, hv3]⟩
    · rintro u hu ht ⟨ha, hw⟩
      obtain ⟨hb, hq⟩ := ClientSession.step_keeps hst ht
      obtain ⟨h1, h2, h3⟩ := ClientSession.step_owes hst hu hb
      rw [ClientSession.Within] at hw
      exact ⟨by rw [ClientSession.Accounts, hb, hq, h1, h2, ha], by rw [ClientSession.Within, hb]; omega⟩

/-- **The transmit queue of a session.**  While `m_txMutex` is free the counter is the sum of the queued sizes and at
most `TX_HWM_BYTES`, and `SendLoop` never takes off more than is counted. -/
theorem txBytesQueued_spec (h : session.Reachable s) :
    (s.txMutex = none → s.txBytesQueued = (s.txQueue.map List.length).sum ∧ s.txBytesQueued ≤ txHwmBytes) ∧
      ∀ msg, s.send = .sub msg → msg.length ≤ s.txBytesQueued := by
  constructor
  · intro hn
    obtain ⟨ha, hw⟩ := balanced h .recv (.inl hn)
    exact ⟨ha, hw⟩
  · intro msg hp
    have hown : s.txMutex = some .send := (tx_owned h .send).2 (by simp [ClientSession.HoldsTx, hp, SendPc.HoldsTx])
    have ha := (balanced h .send (.inr hown)).1
    simp only [ClientSession.Accounts, ClientSession.uncounted, ClientSession.stale, hp, SendPc.stale] at ha
    omega

/-- Two callers queue a message, one by each overload, and `SendLoop` takes the first. -/
def queueTwo : List (Thread × Input) :=
  [(Thread.caller 0, Input.call ⟨[104, 105], .copy⟩)] ++ List.replicate 7 (Thread.caller 0, Input.go) ++
    [(Thread.caller 0, Input.wake 0)] ++ [(Thread.caller 1, Input.call ⟨[33], .move⟩)] ++
    List.replicate 7 (Thread.caller 1, Input.go) ++ [(Thread.caller 1, Input.wake 0)] ++
    List.replicate 4 (Thread.send, Input.go)

theorem txBytesQueued_spec_queueTwo :
    (session.run .start queueTwo).map (fun s => s.send) = some (.sub [104, 105]) ∧
      ∀ s ∈ session.run .start queueTwo, [104, 105].length ≤ s.txBytesQueued := by
  have hpc : (session.run .start queueTwo).map (fun s => s.send) = some (.sub [104, 105]) := by decide +kernel
  refine ⟨hpc, fun s hs => (txBytesQueued_spec (System.reachable_of_run rfl hs)).2 [104, 105] ?_⟩
  rw [Option.mem_def.1 hs] at hpc
  exact Option.some.inj hpc

end TcpChat.FramingSession
