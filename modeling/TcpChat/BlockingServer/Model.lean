import TcpChat.Lib.System
import Mathlib.Logic.Function.Basic

/-!
# The blocking server

The threads of `NetworkBasics/blocking-multithreaded/Server`: one accept thread for every listening socket, a
`ReceiveMsg` for every session, and the thread that calls `ChatServer::Stop`.

The conventions are those of the framing server: a thread is a position in its function, a mutex is its holder, a
session is a number, and what the environment decides is the input of the step.  `BroadcastMsg` keeps
`m_clientsMutex` while it sends.
-/

namespace TcpChat.BlockingServer

open TcpChat.Lib

/-- `RECV_BUF` -/
def recvBuf : ℕ := 4096

inductive Thread where
  | accept (k : ℕ) | recv (i : ℕ) | stop
  deriving DecidableEq

/-- A call of `SendMsg` in the loop of `BroadcastMsg`: the message, the recipient, the recipients after it. -/
structure Call where
  msg : List UInt8
  dest : ℕ
  rest : List ℕ
  deriving DecidableEq

/-! ## Positions -/

/-- `ChatServer::AcceptClients`, with `ClientSession::Start` in it. -/
inductive AcceptPc where
  | test | call | startActive (i : ℕ) | startThread (i : ℕ) | lock (i : ℕ) | push (i : ℕ) | unlock | done
  deriving DecidableEq

/-- `ClientSession::ReceiveMsg`, with `ChatServer::BroadcastMsg` and `ClientSession::SendMsg` in it; `left` are the
bytes of the message that `SendMsg` has still to send. -/
inductive RecvPc where
  | off | test | recv | castLock (msg : List UInt8) | cast (msg : List UInt8) (rest : List ℕ) | castUnlock
  | sendLock (c : Call) | send (c : Call) (left : List UInt8) | sendUnlock (c : Call) | done
  deriving DecidableEq

/-- `ChatServer::Stop`, with `ClientSession::Stop` of the session `i` in it; `rest` are the clients after `i`. -/
inductive StopPc where
  | idle | closeListeners | joinAccept (k : ℕ) | lock | next (rest : List ℕ)
  | store (i : ℕ) (rest : List ℕ) | shutdown (i : ℕ) (rest : List ℕ) | drain (i : ℕ) (rest : List ℕ)
  | close (i : ℕ) (rest : List ℕ) | join (i : ℕ) (rest : List ℕ) | clearClients | unlock | done
  deriving DecidableEq

/-! ## State -/

/-- `ClientSession` -/
structure Session where
  active : Bool
  /-- `m_socket != INVALID_SOCKET` -/
  valid : Bool
  unread : List UInt8
  wire : List UInt8
  sendMutex : Option Thread
  /-- The thread object `m_thread` has been created. -/
  started : Bool
  /-- History: how many broadcasts had begun when the session was put into `m_clients`. -/
  since : ℕ

/-- `ClientSession::ClientSession(socket, server)`, on a connection that will deliver `stream`. -/
def Session.new (stream : List UInt8) : Session where
  active := false
  valid := true
  unread := stream
  wire := []
  sendMutex := none
  started := false
  since := 0

/-- `ChatServer`, with the positions of all threads. -/
structure Server where
  running : Bool
  listening : Bool
  acceptors : ℕ
  clients : List ℕ
  clientsMutex : Option Thread
  count : ℕ
  sess : ℕ → Session
  /-- History: the broadcasts that have taken `m_clientsMutex`, with their senders. -/
  casts : List (ℕ × List UInt8)
  accept : ℕ → AcceptPc
  recv : ℕ → RecvPc
  stop : StopPc

/-- The state in which `ChatServer::Start` has started its accept threads. -/
def Server.start (acceptors : ℕ) : Server where
  running := true
  listening := true
  acceptors := acceptors
  clients := []
  clientsMutex := none
  count := 0
  sess := fun _ => Session.new []
  casts := []
  accept := fun k => if k < acceptors then .test else .done
  recv := fun _ => .off
  stop := .idle

/-- The environment's part in a step; `failed` is a result of at most `0` of `recv` or `send`. -/
inductive Input where
  | go | accepted (stream : List UInt8) | refused | count (n : ℕ) | failed
  deriving DecidableEq

/-- `recv(m_socket, buf, sizeof(buf), 0)`: the bytes received, `none` for a result of at most `0`, and the bytes
that stay unread. -/
def Session.recvCall (c : Session) : Input → Option (Option (List UInt8) × List UInt8)
  | .count n =>
    if c.valid = true ∧ 0 < n ∧ n ≤ recvBuf ∧ n ≤ c.unread.length then
      some (some (c.unread.take n), c.unread.drop n)
    else none
  | .failed => some (none, c.unread)
  | _ => none

/-! ## Steps -/

namespace Server

def setAccept (s : Server) (k : ℕ) (p : AcceptPc) : Server := { s with accept := Function.update s.accept k p }
def setRecv (s : Server) (i : ℕ) (p : RecvPc) : Server := { s with recv := Function.update s.recv i p }
def setStop (s : Server) (p : StopPc) : Server := { s with stop := p }

/-- Changes the session `i`. -/
def modify (s : Server) (i : ℕ) (f : Session → Session) : Server :=
  { s with sess := Function.update s.sess i (f (s.sess i)) }

/-- One step of the accept thread `k`. -/
def acceptStep (s : Server) (k : ℕ) (x : Input) : Option Server :=
  match s.accept k, x with
  | .test, .go => some (s.setAccept k (if s.running then .call else .done))
  | .call, .refused => some (s.setAccept k .test)
  | .call, .accepted stream =>
    if s.listening then
      some ({ s with count := s.count + 1,
                     sess := Function.update s.sess s.count (Session.new stream) }.setAccept k (.startActive s.count))
    else none
  | .startActive i, .go => some ((s.modify i fun c => { c with active := true }).setAccept k (.startThread i))
  | .startThread i, .go => some ((s.modify i fun c => { c with started := true }).setAccept k (.lock i))
  | .lock i, .go =>
    if s.clientsMutex = none then some ({ s with clientsMutex := some (.accept k) }.setAccept k (.push i)) else none
  | .push i, .go =>
    some (({ s with clients := s.clients ++ [i] }.modify i fun c => { c with since := s.casts.length }).setAccept k
      .unlock)
  | .unlock, .go => some ({ s with clientsMutex := none }.setAccept k .test)
  | _, _ => none

/-- One step of the `ReceiveMsg` of the session `i`. -/
def recvStep (s : Server) (i : ℕ) (x : Input) : Option Server :=
  match s.recv i, x with
  | .off, .go => if (s.sess i).started then some (s.setRecv i .test) else none
  | .test, .go => some (s.setRecv i (if (s.sess i).active then .recv else .done))
  | .recv, x =>
    match (s.sess i).recvCall x with
    | none => none
    | some (none, unread) => some ((s.modify i fun c => { c with unread := unread }).setRecv i .done)
    | some (some msg, unread) =>
      some ((s.modify i fun c => { c with unread := unread }).setRecv i (.castLock msg))
  -- BroadcastMsg
  | .castLock msg, .go =>
    if s.clientsMutex = none then
      some ({ s with clientsMutex := some (.recv i), casts := s.casts ++ [(i, msg)] }.setRecv i (.cast msg s.clients))
    else none
  | .cast _ [], .go => some (s.setRecv i .castUnlock)
  | .cast msg (dest :: rest), .go => some (s.setRecv i (if dest = i then .cast msg rest else .sendLock ⟨msg, dest, rest⟩))
  | .castUnlock, .go => some ({ s with clientsMutex := none }.setRecv i .test)
  -- SendMsg
  | .sendLock c, .go =>
    if (s.sess c.dest).sendMutex = none then
      some ((s.modify c.dest fun d => { d with sendMutex := some (.recv i) }).setRecv i (.send c c.msg))
    else none
  | .send c [], .go => some (s.setRecv i (.sendUnlock c))
  | .send c (b :: left), .count n =>
    if (s.sess c.dest).valid = true ∧ 0 < n ∧ n ≤ (b :: left).length then
      some ((s.modify c.dest fun d => { d with wire := d.wire ++ (b :: left).take n }).setRecv i
        (.send c ((b :: left).drop n)))
    else none
  | .send c (_ :: _), .failed => some (s.setRecv i (.sendUnlock c))
  | .sendUnlock c, .go => some ((s.modify c.dest fun d => { d with sendMutex := none }).setRecv i (.cast c.msg c.rest))
  | _, _ => none

/-- One step of the thread in `ChatServer::Stop`. -/
def stopStep (s : Server) (x : Input) : Option Server :=
  match s.stop, x with
  | .idle, .go => some ({ s with running := false }.setStop .closeListeners)
  | .closeListeners, .go => some ({ s with listening := false }.setStop (.joinAccept 0))
  | .joinAccept k, .go =>
    if k < s.acceptors then
      if s.accept k = .done then some (s.setStop (.joinAccept (k + 1))) else none
    else some (s.setStop .lock)
  | .lock, .go =>
    if s.clientsMutex = none then some ({ s with clientsMutex := some .stop }.setStop (.next s.clients)) else none
  | .next [], .go => some (s.setStop .clearClients)
  | .next (i :: rest), .go => some (s.setStop (.store i rest))
  -- ClientSession::Stop
  | .store i rest, .go => some ((s.modify i fun c => { c with active := false }).setStop (.shutdown i rest))
  | .shutdown i rest, .go => some (s.setStop (if (s.sess i).valid then .drain i rest else .join i rest))
  | .drain i rest, x =>
    match (s.sess i).recvCall x with
    | none => none
    | some (none, _) => some (s.setStop (.close i rest))
    | some (some _, unread) => some (s.modify i fun c => { c with unread := unread })
  | .close i rest, .go => some ((s.modify i fun c => { c with valid := false }).setStop (.join i rest))
  | .join i rest, .go =>
    if (s.sess i).started = true → s.recv i = .done then some (s.setStop (.next rest)) else none
  -- back in ChatServer::Stop
  | .clearClients, .go => some ({ s with clients := [] }.setStop .unlock)
  | .unlock, .go => some ({ s with clientsMutex := none }.setStop .done)
  | _, _ => none

/-- One step of a thread. -/
def step (s : Server) : Thread × Input → Option Server
  | (.accept k, x) => s.acceptStep k x
  | (.recv i, x) => s.recvStep i x
  | (.stop, x) => s.stopStep x

end Server

/-- The blocking server, from the start of its accept threads on. -/
def server : System Server (Thread × Input) where
  init s := ∃ n, s = .start n
  step := Server.step

end TcpChat.BlockingServer
