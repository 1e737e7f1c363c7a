import TcpChat.FramingServer.Registry
import TcpChat.Lib.Mutex

/-!
# The mutexes of the framing server

Who holds `m_txMutex` of a session and `m_clientsMutex` can be read off the positions of the threads: `holdsTx`
and `holdsClients`.

* `step_tx`, `step_clients` — a step of a thread takes a mutex only when it is free, and gives back only what it
  holds;
* `tx_owned`, `clients_owned` — in every reachable state the holder of a mutex is the thread whose position is
  inside the critical section.
-/

namespace TcpChat.FramingServer

open TcpChat.Framing TcpChat.Lib

/-! ## Positions inside the critical sections -/

/-- The session whose `m_txMutex` the `RecvLoop` of the session `i` holds. -/
def RecvPc.holdsTx (i : ℕ) : RecvPc → Option ℕ
  | .sendPred c | .sendPark c | .sendRetest c | .sendPush c | .sendAdd c | .sendUnlock c | .sendReturn c => some c.dest
  | .endNotifyEmpty | .endNotifyFull | .endUnlock => some i
  | _ => none

/-- The session whose `m_txMutex` the `SendLoop` of the session `i` holds. -/
def SendPc.holdsTx (i : ℕ) : SendPc → Option ℕ
  | .pred | .park | .test | .breakUnlock | .pop | .sub _ | .notify _ | .unlock _ => some i
  | _ => none

def StopPc.holdsTx : StopPc → Option ℕ
  | .notifyEmpty i _ | .notifyFull i _ | .unlockTx i _ | .clear i _ | .zero i _ | .reunlockTx i _ => some i
  | _ => none

/-- The thread is inside the critical section of the session `r`. -/
def Server.HoldsTx (s : Server) (r : ℕ) : Thread → Prop
  | .accept _ => False
  | .recv i => (s.recv i).holdsTx i = some r
  | .send i => (s.send i).holdsTx i = some r
  | .stop => s.stop.holdsTx = some r

def AcceptPc.HoldsClients : AcceptPc → Prop
  | .push _ | .unlock => True
  | _ => False

def RecvPc.HoldsClients : RecvPc → Prop
  | .castCopy _ | .castUnlock _ _ => True
  | _ => False

def StopPc.HoldsClients : StopPc → Prop
  | .idle | .closeListeners | .joinAccept _ | .lock | .done => False
  | _ => True

/-- The thread is inside a critical section of the server. -/
def Server.HoldsClients (s : Server) : Thread → Prop
  | .accept k => (s.accept k).HoldsClients
  | .recv i => (s.recv i).HoldsClients
  | .send _ => False
  | .stop => s.stop.HoldsClients

namespace Server

variable {s s' : Server} {t u : Thread} {x : Input}

/-! ## A step keeps to the locks -/

theorem acceptStep_clients {k : ℕ} (h : s.acceptStep k x = some s') :
    LockStep (.accept k) s.clientsMutex s'.clientsMutex (s.accept k).HoldsClients (s'.accept k).HoldsClients := by
  unfold acceptStep at h
  repeat' split at h
  all_goals simp only [Option.some.injEq, reduceCtorEq] at h
  all_goals subst h
  all_goals simp only [LockStep, *, setAccept, modify, Function.update_self, AcceptPc.HoldsClients]
  all_goals grind -linarith

theorem sendStep_clients {i : ℕ} (h : s.sendStep i x = some s') : s'.clientsMutex = s.clientsMutex := by
  unfold sendStep at h
  repeat' split at h
  all_goals simp only [Option.some.injEq, reduceCtorEq] at h
  all_goals subst h
  all_goals rfl

theorem recvStep_clients {i : ℕ} (h : s.recvStep i x = some s') :
    LockStep (.recv i) s.clientsMutex s'.clientsMutex (s.recv i).HoldsClients (s'.recv i).HoldsClients := by
  unfold recvStep at h
  repeat' split at h
  all_goals simp only [Option.some.injEq, reduceCtorEq] at h
  all_goals subst h
  all_goals simp only [LockStep, *, setRecv, modify, Function.update_self, RecvPc.HoldsClients]
  all_goals grind -linarith

theorem recvStep_tx {i : ℕ} (h : s.recvStep i x = some s') (r : ℕ) :
    LockStep (.recv i) (s.sess r).txMutex (s'.sess r).txMutex
      ((s.recv i).holdsTx i = some r) ((s'.recv i).holdsTx i = some r) := by
  unfold recvStep at h
  repeat' split at h
  all_goals simp only [Option.some.injEq, reduceCtorEq] at h
  all_goals subst h
  all_goals simp only [LockStep, *, setRecv, modify, Function.update_self, Function.update_apply, RecvPc.holdsTx]
  all_goals grind -linarith

theorem sendStep_tx {i : ℕ} (h : s.sendStep i x = some s') (r : ℕ) :
    LockStep (.send i) (s.sess r).txMutex (s'.sess r).txMutex
      ((s.send i).holdsTx i = some r) ((s'.send i).holdsTx i = some r) := by
  unfold sendStep at h
  repeat' split at h
  all_goals simp only [Option.some.injEq, reduceCtorEq] at h
  all_goals subst h
  all_goals simp only [LockStep, *, setSend, modify, Function.update_self, Function.update_apply, SendPc.holdsTx]
  all_goals grind -linarith

theorem stopStep_tx (h : s.stopStep x = some s') (r : ℕ) :
    LockStep .stop (s.sess r).txMutex (s'.sess r).txMutex
      (s.stop.holdsTx = some r) (s'.stop.holdsTx = some r) := by
  unfold stopStep at h
  repeat' split at h
  all_goals simp only [Option.some.injEq, reduceCtorEq] at h
  all_goals subst h
  all_goals simp only [LockStep, *, setStop, modify, Function.update_apply, StopPc.holdsTx]
  all_goals grind -linarith

theorem stopStep_clients (h : s.stopStep x = some s') :
    LockStep .stop s.clientsMutex s'.clientsMutex s.stop.HoldsClients s'.stop.HoldsClients := by
  unfold stopStep at h
  repeat' split at h
  all_goals simp only [Option.some.injEq, reduceCtorEq] at h
  all_goals subst h
  all_goals simp only [LockStep, *, setStop, modify, StopPc.HoldsClients]
  all_goals grind -linarith

theorem step_clients (h : s.step (t, x) = some s') :
    LockStep t s.clientsMutex s'.clientsMutex (s.HoldsClients t) (s'.HoldsClients t) := by
  cases t with
  | accept k => exact acceptStep_clients h
  | recv i => exact recvStep_clients h
  | send i => exact .inl ⟨sendStep_clients h, Iff.rfl⟩
  | stop => exact stopStep_clients h

/-- A session is made with a free mutex. -/
theorem acceptStep_tx {k : ℕ} (h : s.acceptStep k x = some s') (hf : s.Fresh) (r : ℕ) :
    (s'.sess r).txMutex = (s.sess r).txMutex := by
  have hb := (hf.blank s.count le_rfl).1
  unfold acceptStep at h
  repeat' split at h
  all_goals simp only [Option.some.injEq, reduceCtorEq] at h
  all_goals subst h
  all_goals simp only [setAccept, modify, Function.update_apply]
  all_goals grind -linarith [Session.new]

theorem step_tx (h : s.step (t, x) = some s') (hf : s.Fresh) (r : ℕ) :
    LockStep t (s.sess r).txMutex (s'.sess r).txMutex (s.HoldsTx r t) (s'.HoldsTx r t) := by
  cases t with
  | accept k => exact .inl ⟨acceptStep_tx h hf r, Iff.rfl⟩
  | recv i => exact recvStep_tx h r
  | send i => exact sendStep_tx h r
  | stop => exact stopStep_tx h r

end Server

/-! ## In every reachable state -/

theorem clients_owned {ok : Server → Thread × Input → Prop} {s : Server} (h : server.Reach ok s) :
    Owned s.clientsMutex s.HoldsClients := by
  refine h.invariant (fun s => Owned s.clientsMutex s.HoldsClients) ?_ ?_
  · rintro s ⟨n, rfl⟩
    refine .of_none fun t => ?_
    cases t <;> simp [Server.HoldsClients, Server.start, RecvPc.HoldsClients, StopPc.HoldsClients]
    split <;> simp [AcceptPc.HoldsClients]
  · rintro s ⟨t, x⟩ s' - ih - hst
    have hpc := Server.step_pc hst
    refine ih.step (Server.step_clients hst) fun u hu => ?_
    cases u with
    | accept k => simp only [Server.HoldsClients, hpc.accept k (Ne.symm hu)]
    | recv i => simp only [Server.HoldsClients, hpc.recv i (Ne.symm hu)]
    | send i => exact Iff.rfl
    | stop => simp only [Server.HoldsClients, hpc.stop (Ne.symm hu)]

theorem tx_owned {ok : Server → Thread × Input → Prop} {s : Server} (h : server.Reach ok s) (r : ℕ) :
    Owned (s.sess r).txMutex (s.HoldsTx r) := by
  refine h.invariant (fun s => Owned (s.sess r).txMutex (s.HoldsTx r)) ?_ ?_
  · rintro s ⟨n, rfl⟩
    refine .of_none fun t => ?_
    cases t <;> simp [Server.HoldsTx, Server.start, RecvPc.holdsTx, SendPc.holdsTx, StopPc.holdsTx]
  · rintro s ⟨t, x⟩ s' hr ih - hst
    have hpc := Server.step_pc hst
    refine ih.step (Server.step_tx hst (fresh hr) r) fun u hu => ?_
    cases u with
    | accept k => exact Iff.rfl
    | recv i => simp only [Server.HoldsTx, hpc.recv i (Ne.symm hu)]
    | send i => simp only [Server.HoldsTx, hpc.send i (Ne.symm hu)]
    | stop => simp only [Server.HoldsTx, hpc.stop (Ne.symm hu)]

end TcpChat.FramingServer
