import TcpChat.FramingServer.Locks

/-!
# The byte counter of a session

`m_txBytesQueued` and `m_txQueue` are changed by two statements each time; between them the thread that holds
`m_txMutex` owes the difference.

* `Accounts` — the counter, with what the thread `t` has still to add, is the sum of the queued sizes, with what
  `t` has still to take off;
* `balanced` — it holds for whoever holds the mutex, and for everyone while the mutex is free;
* `txBytesQueued_eq` — so the counter is the sum whenever the mutex is free.
-/

namespace TcpChat.FramingServer

open TcpChat.Framing TcpChat.Lib

/-- The sum of the sizes of the messages of a queue. -/
def queueBytes (queue : List Msg) : ℕ := (queue.map fun m => m.body.length).sum

@[simp] theorem queueBytes_nil : queueBytes [] = 0 := rfl

@[simp] theorem queueBytes_cons (m : Msg) (queue : List Msg) :
    queueBytes (m :: queue) = m.body.length + queueBytes queue := by simp [queueBytes]

@[simp] theorem queueBytes_concat (queue : List Msg) (m : Msg) :
    queueBytes (queue ++ [m]) = queueBytes queue + m.body.length := by simp [queueBytes]

/-- Bytes that a `RecvLoop` has put into the queue of the session `r` and not yet counted. -/
def RecvPc.uncounted (r : ℕ) : RecvPc → ℕ
  | .sendAdd c => if c.dest = r then c.msg.length else 0
  | _ => 0

/-- Bytes that the `SendLoop` of a session has taken from its queue and are still counted. -/
def SendPc.stale : SendPc → ℕ
  | .sub msg => msg.body.length
  | _ => 0

/-- Bytes still counted in the session `r` when `Stop` has cleared its queue. -/
def StopPc.stale (r bytes : ℕ) : StopPc → ℕ
  | .zero i _ => if i = r then bytes else 0
  | _ => 0

namespace Server

variable {s s' : Server} {t : Thread} {x : Input} {r : ℕ}

def uncounted (s : Server) (r : ℕ) : Thread → ℕ
  | .recv i => (s.recv i).uncounted r
  | _ => 0

def stale (s : Server) (r : ℕ) : Thread → ℕ
  | .send i => if i = r then (s.send i).stale else 0
  | .stop => s.stop.stale r (s.sess r).txBytesQueued
  | _ => 0

/-- The counter of the session `r` and its queue agree up to what the thread `t` owes. -/
def Accounts (s : Server) (r : ℕ) (t : Thread) : Prop :=
  (s.sess r).txBytesQueued + s.uncounted r t = queueBytes (s.sess r).txQueue + s.stale r t

/-- The queue and the counter of the session `r` are the same. -/
def SameQueue (s s' : Server) (r : ℕ) : Prop :=
  (s'.sess r).txBytesQueued = (s.sess r).txBytesQueued ∧ (s'.sess r).txQueue = (s.sess r).txQueue

/-- A thread outside the critical section owes nothing. -/
theorem uncounted_of_not_holds (h : ¬ s.HoldsTx r t) : s.uncounted r t = 0 := by
  cases t with
  | recv i =>
    simp only [HoldsTx] at h
    simp only [uncounted]
    cases hp : s.recv i <;> simp_all [RecvPc.holdsTx, RecvPc.uncounted]
  | _ => rfl

theorem stale_of_not_holds (h : ¬ s.HoldsTx r t) : s.stale r t = 0 := by
  cases t with
  | send i =>
    simp only [HoldsTx] at h
    simp only [stale]
    cases hp : s.send i <;> simp_all [SendPc.holdsTx, SendPc.stale]
  | stop =>
    simp only [HoldsTx] at h
    simp only [stale]
    cases hp : s.stop <;> simp_all [StopPc.holdsTx, StopPc.stale]
  | _ => rfl

/-! ## The steps -/

theorem recvStep_accounts {i : ℕ} (h : s.recvStep i x = some s') (ha : s.Accounts r (.recv i)) :
    s'.Accounts r (.recv i) := by
  simp only [Accounts, uncounted, stale] at ha ⊢
  unfold recvStep at h
  repeat' split at h
  all_goals simp only [Option.some.injEq, reduceCtorEq] at h
  all_goals subst h
  all_goals simp only [setRecv, modify, Function.update_self, Function.update_apply, RecvPc.uncounted, *] at ha ⊢
  all_goals grind -linarith [queueBytes_concat]

theorem recvStep_sameQueue {i : ℕ} (h : s.recvStep i x = some s') (hr : (s.recv i).holdsTx i ≠ some r) :
    s.SameQueue s' r := by
  unfold recvStep at h
  repeat' split at h
  all_goals simp only [Option.some.injEq, reduceCtorEq] at h
  all_goals subst h
  all_goals simp only [SameQueue, setRecv, modify, Function.update_apply, RecvPc.holdsTx, *] at hr ⊢
  all_goals grind -linarith

theorem sendStep_accounts {i : ℕ} (h : s.sendStep i x = some s') (ha : s.Accounts r (.send i)) :
    s'.Accounts r (.send i) := by
  simp only [Accounts, uncounted, stale] at ha ⊢
  unfold sendStep at h
  repeat' split at h
  all_goals simp only [Option.some.injEq, reduceCtorEq] at h
  all_goals subst h
  all_goals simp only [setSend, modify, Function.update_self, Function.update_apply, SendPc.stale, *] at ha ⊢
  all_goals grind -linarith [queueBytes_cons]

theorem sendStep_sameQueue {i : ℕ} (h : s.sendStep i x = some s') (hr : (s.send i).holdsTx i ≠ some r) :
    s.SameQueue s' r := by
  unfold sendStep at h
  repeat' split at h
  all_goals simp only [Option.some.injEq, reduceCtorEq] at h
  all_goals subst h
  all_goals simp only [SameQueue, setSend, modify, Function.update_apply, SendPc.holdsTx, *] at hr ⊢
  all_goals grind -linarith

theorem stopStep_accounts (h : s.stopStep x = some s') (ha : s.Accounts r .stop) : s'.Accounts r .stop := by
  simp only [Accounts, uncounted, stale] at ha ⊢
  unfold stopStep at h
  repeat' split at h
  all_goals simp only [Option.some.injEq, reduceCtorEq] at h
  all_goals subst h
  all_goals simp only [setStop, modify, Function.update_apply, StopPc.stale, *] at ha ⊢
  all_goals grind -linarith [queueBytes_nil]

theorem stopStep_sameQueue (h : s.stopStep x = some s') (hr : s.stop.holdsTx ≠ some r) :
    s.SameQueue s' r := by
  unfold stopStep at h
  repeat' split at h
  all_goals simp only [Option.some.injEq, reduceCtorEq] at h
  all_goals subst h
  all_goals simp only [SameQueue, setStop, modify, Function.update_apply, StopPc.holdsTx, *] at hr ⊢
  all_goals grind -linarith

theorem acceptStep_sameQueue {k : ℕ} (h : s.acceptStep k x = some s') (hf : s.Fresh) (r : ℕ) : s.SameQueue s' r := by
  have hb := (hf.blank s.count le_rfl).1
  unfold acceptStep at h
  repeat' split at h
  all_goals simp only [Option.some.injEq, reduceCtorEq] at h
  all_goals subst h
  all_goals simp only [SameQueue, setAccept, modify, Function.update_apply]
  all_goals grind -linarith [Session.new]

theorem step_accounts (h : s.step (t, x) = some s') (hf : s.Fresh) (ha : s.Accounts r t) : s'.Accounts r t := by
  cases t with
  | accept k =>
    obtain ⟨hb, hq⟩ := acceptStep_sameQueue h hf r
    simpa only [Accounts, uncounted, stale, hb, hq] using ha
  | recv i => exact recvStep_accounts h ha
  | send i => exact sendStep_accounts h ha
  | stop => exact stopStep_accounts h ha

theorem step_sameQueue (h : s.step (t, x) = some s') (hf : s.Fresh) (hr : ¬ s.HoldsTx r t) : s.SameQueue s' r := by
  cases t with
  | accept k => exact acceptStep_sameQueue h hf r
  | recv i => exact recvStep_sameQueue h hr
  | send i => exact sendStep_sameQueue h hr
  | stop => exact stopStep_sameQueue h hr

/-- What the other threads owe does not change. -/
theorem step_owed (h : s.step (t, x) = some s') {u : Thread} (hu : u ≠ t) (hq : s.SameQueue s' r) :
    s'.uncounted r u = s.uncounted r u ∧ s'.stale r u = s.stale r u := by
  have hpc := step_pc h
  cases u with
  | accept k => exact ⟨rfl, rfl⟩
  | recv i => simp only [uncounted, stale, hpc.recv i (Ne.symm hu), and_self]
  | send i => simp only [uncounted, stale, hpc.send i (Ne.symm hu), and_self]
  | stop => simp only [uncounted, stale, hpc.stop (Ne.symm hu), hq.1, and_self]

end Server

/-! ## In every reachable state -/

variable {ok : Server → Thread × Input → Prop} {s : Server}

/-- **The byte counter is right**, up to what the holder of the mutex owes. -/
theorem balanced (h : server.Reach ok s) (r : ℕ) (t : Thread)
    (ht : (s.sess r).txMutex = none ∨ (s.sess r).txMutex = some t) : s.Accounts r t := by
  refine h.invariant (fun s => ∀ t, (s.sess r).txMutex = none ∨ (s.sess r).txMutex = some t → s.Accounts r t)
    ?_ ?_ t ht
  · rintro s ⟨n, rfl⟩ t -
    cases t <;> simp [Server.Accounts, Server.uncounted, Server.stale, Server.start, Session.new,
      RecvPc.uncounted, SendPc.stale, StopPc.stale]
  · rintro s ⟨t, x⟩ s' hr ih - hst
    have hf := fresh hr
    have hr' : server.Reachable s := hr.mono fun _ _ _ => trivial
    refine (tx_owned hr' r).guarded (tx_owned (hr'.step trivial hst) r) (Server.step_tx hst hf r) ?_ ?_ ?_ ih
    · exact Server.step_accounts hst hf
    · intro u v hu hv ha
      rw [Server.Accounts, Server.uncounted_of_not_holds hu, Server.stale_of_not_holds hu] at ha
      rw [Server.Accounts, Server.uncounted_of_not_holds hv, Server.stale_of_not_holds hv]
      exact ha
    · intro u hu ht ha
      have hq := Server.step_sameQueue hst hf ht
      obtain ⟨h1, h2⟩ := Server.step_owed hst hu hq
      rw [Server.Accounts, hq.1, hq.2, h1, h2]
      exact ha

/-- Whenever the mutex of a session is free, its counter is the sum of the queued sizes. -/
theorem txBytesQueued_eq (h : server.Reach ok s) (r : ℕ) (hn : (s.sess r).txMutex = none) :
    (s.sess r).txBytesQueued = queueBytes (s.sess r).txQueue :=
  balanced h r (.accept 0) (.inl hn)

end TcpChat.FramingServer
