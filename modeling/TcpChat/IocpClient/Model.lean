import TcpChat.Lib.System
import Mathlib.Algebra.Order.Ring.Nat

/-!
# The I/O completion port client

`ChatClient` of `NetworkBasics/iocp/Client`, with its three threads: the input thread of `main` calls `Send` and `Stop`,
the network thread runs `Start` with `RunEventLoop` in it, and `SendWorker` is started by the network thread.

* A thread is a position in its function; a step of a thread is one access to the state that it shares with the others.
  The system also takes a step when a pending overlapped operation completes.
* `KickSend` and `Stop` are called from two threads each: their positions and steps are shared.
* A submission remembers the item whose buffer and `OVERLAPPED` it uses, as the item was at the `WSASend`.
* `sent` and `log` are histories, which only the statements about the client read.
-/

namespace TcpChat.IocpClient

open TcpChat.Lib

/-- `2 ^ 32`: the number of the values of a `ULONG` or `DWORD`. -/
def ulongSize : ℕ := 2 ^ 32

/-- `RECV_BUF` -/
def recvBuf : ℕ := 64 * 1024

/-- `SendItem`; `num` is a history: the number of the message. -/
structure SendItem where
  num : ℕ
  data : List UInt8
  off : ℕ
  deriving DecidableEq

/-- `static_cast<ULONG>(it.data.size() - it.off)` -/
def SendItem.len (it : SendItem) : ℕ := (it.data.length - it.off) % ulongSize

/-- The buffer of the `WSASend` for the item. -/
def SendItem.buffer (it : SendItem) : List UInt8 := (it.data.drop it.off).take it.len

/-- A completion packet.  A send carries the item whose `OVERLAPPED` was submitted; `quit` is a packet without one. -/
inductive Packet where
  | recv (bytes : ℕ) (ok : Bool) | send (it : SendItem) (bytes : ℕ) (ok : Bool) | quit
  deriving DecidableEq

/-! ## Positions -/

inductive Thread where
  | input | net | worker
  deriving DecidableEq

/-- `ChatClient::KickSend` -/
inductive KickPc where
  | lock | test | send | unlock
  deriving DecidableEq

/-- `ChatClient::Stop` -/
inductive StopPc where
  | runSend | closeSocket | deactivate | join
  deriving DecidableEq

/-- The loop over the lines in `main`, with `ChatClient::Send` in it. -/
inductive InputPc where
  | getline | sendLock (msg : List UInt8) | sendPush (msg : List UInt8) | sendUnlock | stop (p : StopPc) | join | done
  deriving DecidableEq

/-- `ChatClient::SendWorker`; `absent` is the thread before it is started. -/
inductive WorkerPc where
  | absent | loop | lock | pred | sleep | check | release | kick (p : KickPc) | unlock | leave | done
  deriving DecidableEq

/-- `ChatClient::Start`, with `RunEventLoop`, `OnRecvComplete` and `OnSendComplete` in it. -/
inductive NetPc where
  | connect | associate | activate | firstRecv | runSend | spawn
  | loop | wait | repost | closeSocket | postQuit
  | completeLock (bytes : ℕ) | complete (bytes : ℕ) | completeUnlock (needKick : Bool) | kick (p : KickPc)
  | stop (p : StopPc) | done
  deriving DecidableEq

/-! ## State -/

/-- `ChatClient`, with the positions of its threads and the kernel's part of the state. -/
structure Client where
  /-- `m_socket != INVALID_SOCKET` -/
  socket : Bool
  isActive : Bool
  runSend : Bool
  mutex : Option Thread
  sendQueue : List SendItem
  sendInFlight : Bool
  recvPending : Bool
  /-- The sends that are pending in the kernel. -/
  pending : List SendItem
  packets : List Packet
  input : InputPc
  net : NetPc
  worker : WorkerPc
  /-- History: the messages that were passed to `Send` and queued. -/
  sent : List (List UInt8)
  /-- History: for each completed send the number of its message and the bytes that have gone out. -/
  log : List (ℕ × List UInt8)
  deriving DecidableEq

/-- The state in which `main` has started the network thread. -/
def Client.start : Client where
  socket := false
  isActive := false
  runSend := false
  mutex := none
  sendQueue := []
  sendInFlight := false
  recvPending := false
  pending := []
  packets := []
  input := .getline
  net := .connect
  worker := .absent
  sent := []
  log := []

/-- The bytes that have gone out. -/
def Client.completed (s : Client) : List UInt8 := s.log.flatMap (·.2)

/-- The environment's part in a step. -/
inductive Input where
  | go | ok | failed | line (msg : List UInt8) | quit | eof
  deriving DecidableEq

namespace Client

/-- Locks `m_sendMx`. -/
def lock (s : Client) (t : Thread) : Option Client :=
  if s.mutex = none then some { s with mutex := some t } else none

theorem lock_eq_some {s s' : Client} {t : Thread} :
    s.lock t = some s' ↔ s.mutex = none ∧ s' = { s with mutex := some t } := by
  unfold lock
  split
  next hfree => simp [hfree, eq_comm]
  next hfree => simp [hfree]

def unlock (s : Client) : Client := { s with mutex := none }

/-! ## Steps -/

/-- One step of `KickSend`: the next position, or `none` after the return.  `ok` is the answer of `WSASend`. -/
def kickStep (s : Client) (t : Thread) (ok : Bool) : KickPc → Option (Client × Option KickPc)
  | .lock => (s.lock t).map fun s' => (s', some .test)
  | .test =>
    if s.sendQueue = [] then some ({ s with sendInFlight := false }, some .unlock)
    else if s.socket = false then some ({ s with sendInFlight := false, sendQueue := [] }, some .unlock)
    else some (s, some .send)
  | .send =>
    match s.sendQueue with
    | [] => none
    | it :: queue =>
      if ok = true then
        if s.socket = true then some ({ s with pending := s.pending ++ [it] }, some .unlock) else none
      else some ({ s with sendInFlight := false, sendQueue := queue }, some .unlock)
  | .unlock => some (s.unlock, none)

/-- One step of `Stop`: the next position, or `none` after the return. -/
def stopStep (s : Client) : StopPc → Option (Client × Option StopPc)
  | .runSend => some ({ s with runSend := false }, some .closeSocket)
  | .closeSocket => some ({ s with socket := false }, some .deactivate)
  | .deactivate => some ({ s with isActive := false }, some .join)
  | .join => if s.worker = .absent ∨ s.worker = .done then some (s, none) else none

/-- One step of the input thread. -/
def inputStep (s : Client) (x : Input) : Option Client :=
  match s.input, x with
  | .getline, .line msg => some { s with input := if msg = [] then .getline else .sendLock msg }
  | .getline, .quit => some { s with input := .stop .runSend }
  | .getline, .eof => some { s with input := .join }
  -- Send
  | .sendLock msg, .go => (s.lock .input).map fun s' => { s' with input := .sendPush msg }
  | .sendPush msg, .go =>
    some { s with sendQueue := s.sendQueue ++ [⟨s.sent.length, msg, 0⟩], sent := s.sent ++ [msg], input := .sendUnlock }
  | .sendUnlock, .go => some { s.unlock with input := .getline }
  | .stop p, .go => (s.stopStep p).map fun (s', p') => { s' with input := p'.elim .join .stop }
  | .join, .go => if s.net = .done then some { s with input := .done } else none
  | _, _ => none

/-- One step of `SendWorker`.  The wait may end at any time, and then tests its predicate again. -/
def workerStep (s : Client) (x : Input) : Option Client :=
  match s.worker, x with
  | .loop, .go => some { s with worker := if s.runSend then .lock else .done }
  | .lock, .go => (s.lock .worker).map fun s' => { s' with worker := .pred }
  | .pred, .go =>
    if s.sendQueue ≠ [] ∨ s.runSend = false then some { s with worker := .check }
    else some { s.unlock with worker := .sleep }
  | .sleep, .go => some { s with worker := .lock }
  | .check, .go =>
    if s.runSend = false then some { s with worker := .leave }
    else if s.sendInFlight = false ∧ s.sendQueue ≠ [] then some { s with sendInFlight := true, worker := .release }
    else some { s with worker := .unlock }
  | .release, .go => some { s.unlock with worker := .kick .lock }
  | .kick .send, .ok => (s.kickStep .worker true .send).map fun (s', p') => { s' with worker := p'.elim .loop .kick }
  | .kick .send, .failed => (s.kickStep .worker false .send).map fun (s', p') => { s' with worker := p'.elim .loop .kick }
  | .kick .send, _ => none
  | .kick p, .go => (s.kickStep .worker false p).map fun (s', p') => { s' with worker := p'.elim .loop .kick }
  | .unlock, .go => some { s.unlock with worker := .loop }
  | .leave, .go => some { s.unlock with worker := .done }
  | _, _ => none

/-- `OnSendComplete`, under the mutex: the offset advances, and the item is removed when all of it has been sent.  The
result says whether `KickSend` is called. -/
def onSendComplete (s : Client) (bytes : ℕ) : Client × Bool :=
  match s.sendQueue with
  | [] => ({ s with sendInFlight := false }, false)
  | it :: queue =>
    if it.off + bytes < it.data.length then ({ s with sendQueue := { it with off := it.off + bytes } :: queue }, true)
    else if queue = [] then ({ s with sendQueue := [], sendInFlight := false }, false)
    else ({ s with sendQueue := queue }, true)

/-- One step of the network thread. -/
def netStep (s : Client) (x : Input) : Option Client :=
  match s.net, x with
  | .connect, .ok => some { s with socket := true, net := .associate }
  | .connect, .failed => some { s with net := .stop .runSend }
  | .associate, .ok => some { s with net := .activate }
  | .associate, .failed => some { s with net := .stop .runSend }
  | .activate, .go => some { s with isActive := true, net := .firstRecv }
  | .firstRecv, .ok => some { s with recvPending := true, net := .runSend }
  | .firstRecv, .failed => some { s with net := .stop .runSend }
  | .runSend, .go => some { s with runSend := true, net := .spawn }
  | .spawn, .go => some { s with worker := .loop, net := .loop }
  -- RunEventLoop
  | .loop, .go => some { s with net := if s.isActive then .wait else .stop .runSend }
  | .wait, .go =>
    match s.packets with
    | [] => none
    | .quit :: packets => some { s with packets := packets, net := .stop .runSend }
    | .recv bytes ok :: packets =>
      some { s with packets := packets, net := if ok = false ∨ bytes = 0 then .closeSocket else .repost }
    | .send _ bytes ok :: packets =>
      some { s with packets := packets, net := if ok = false then .closeSocket else .completeLock bytes }
  | .wait, .failed => some { s with net := .stop .runSend }
  | .repost, .ok => some { s with recvPending := true, net := .loop }
  | .repost, .failed => some { s with net := .loop }
  | .closeSocket, .go => some { s with socket := false, net := .postQuit }
  | .postQuit, .go => some { s with packets := s.packets ++ [.quit], net := .loop }
  -- OnSendComplete
  | .completeLock bytes, .go => (s.lock .net).map fun s' => { s' with net := .complete bytes }
  | .complete bytes, .go =>
    some { (s.onSendComplete bytes).1 with net := .completeUnlock (s.onSendComplete bytes).2 }
  | .completeUnlock needKick, .go => some { s.unlock with net := if needKick then .kick .lock else .loop }
  | .kick .send, .ok => (s.kickStep .net true .send).map fun (s', p') => { s' with net := p'.elim .loop .kick }
  | .kick .send, .failed => (s.kickStep .net false .send).map fun (s', p') => { s' with net := p'.elim .loop .kick }
  | .kick .send, _ => none
  | .kick p, .go => (s.kickStep .net false p).map fun (s', p') => { s' with net := p'.elim .loop .kick }
  | .stop p, .go => (s.stopStep p).map fun (s', p') => { s' with net := p'.elim .done .stop }
  | _, _ => none

end Client

/-- A step of a thread, the completion of the pending receive, or the completion of the pending send number `k`. -/
inductive Action where
  | thread (t : Thread) (x : Input)
  | recvDone (bytes : ℕ) (ok : Bool)
  | sendDone (k : ℕ) (bytes : ℕ) (ok : Bool)
  deriving DecidableEq

def Client.step (s : Client) : Action → Option Client
  | .thread .input x => s.inputStep x
  | .thread .net x => s.netStep x
  | .thread .worker x => s.workerStep x
  | .recvDone bytes ok =>
    if s.recvPending = true ∧ bytes ≤ recvBuf then
      some { s with recvPending := false, packets := s.packets ++ [.recv bytes ok] }
    else none
  | .sendDone k bytes ok =>
    match s.pending[k]? with
    | none => none
    | some it =>
      if bytes ≤ it.len then
        some { s with pending := s.pending.eraseIdx k, packets := s.packets ++ [.send it bytes ok],
                      log := s.log ++ [(it.num, it.buffer.take bytes)] }
      else none

/-- The completion port client, from the start of its network thread on. -/
def client : System Client Action where
  init s := s = .start
  step := Client.step

end TcpChat.IocpClient
