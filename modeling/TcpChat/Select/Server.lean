import TcpChat.EventLoop.Session
import TcpChat.Framing.Winsock
import TcpChat.Lib.System

/-!
# The `select` server

`ChatServer` and `ClientSession` of `NetworkBasics/select/Server`, from the start of `RunEventLoop` on.  The sockets
of the clients are non-blocking, so every call returns; a step is what one call answers and the code up to the next
call.

* The order in which the loops go through `m_clients` is that of the hash map, an input; nothing is added to the map or
  removed from it while a loop goes through it.
* `sent`, `cut`, `since` and `log` are histories.
-/

namespace TcpChat.Select

open TcpChat.Lib TcpChat.Framing
open TcpChat.EventLoop (Broadcast recvBuf)

/-- A `SOCKET` other than `INVALID_SOCKET`. -/
abbrev Socket := ℕ

/-- `FD_SETSIZE` of Winsock -/
def fdSetSize : ℕ := 64

/-! ## State -/

/-- `ClientSession` -/
structure ClientSession where
  id : ℕ
  /-- `m_socket`, `none` for `INVALID_SOCKET`. -/
  socket : Option Socket
  /-- History: how many broadcasts there had been when the session was made. -/
  since : ℕ
  /-- History: the bytes that `send` accepted in `SendMsg`. -/
  sent : List UInt8
  /-- History: a `SendMsg` has returned before all the bytes of its message were accepted. -/
  cut : Bool

/-- `ChatServer`, with the kernel's part of the state. -/
structure Server where
  wsaInit : Bool
  listenSockets : List Socket
  clients : Table Socket ClientSession
  toClose : List Socket
  /-- How often `closesocket` has been called on a socket since it was handed out; `none` if it never was. -/
  closes : Socket → Option ℕ
  /-- The number of sessions made so far. -/
  count : ℕ
  log : List Broadcast

/-- Where `RunEventLoop` is, between two calls. -/
inductive Position where
  /-- Before `select`. -/
  | wait
  /-- In `HandleReadyListeners`, in the loop over `accept` of the first of the ready listeners `ls`. -/
  | accepting (ready ls : List Socket)
  /-- In `HandleReadyClients`, with the ready clients `todo` still to come. -/
  | receiving (order todo : List Socket)
  /-- In `BroadcastMsg`, called from there: in the `SendMsg` of the first of `recipients`, with the bytes `rest` left.
  -/
  | sending (order todo : List Socket) (msg : List UInt8) (recipients : List Socket) (rest : List UInt8)
  /-- In `RemoveClosedClients`, in the `GracefulShutdown` of the first of `todo`. -/
  | removing (todo : List Socket)
  /-- The loop has ended. -/
  | left
  deriving DecidableEq

structure State where
  position : Position
  server : Server

namespace Server

def start (listenSockets : List Socket) : Server where
  wsaInit := true
  listenSockets := listenSockets
  clients := ∅
  toClose := []
  closes := fun s => if s ∈ listenSockets then some 0 else none
  count := 0
  log := []

/-- The socket has been handed out and not been closed. -/
def IsOpen (s : Server) (sock : Socket) : Prop := s.closes sock = some 0

instance (s : Server) : DecidablePred s.IsOpen := fun _ => inferInstanceAs (Decidable (_ = _))

/-- `FD_SET(sock, &set)` -/
def fdSet (set : List Socket) (sock : Socket) : List Socket :=
  if sock ∈ set then set else if set.length < fdSetSize then set ++ [sock] else set

/-- `ChatServer::BuildReadSet` -/
def buildReadSet (s : Server) (order : List Socket) : List Socket := (s.listenSockets ++ order).foldl fdSet []

/-- The loops over `m_clients` go through it in the order `order`. -/
def IsOrder (s : Server) (order : List Socket) : Prop := order.Perm s.clients.keys

instance (s : Server) : DecidablePred s.IsOrder := fun _ => inferInstanceAs (Decidable (List.Perm _ _))

/-- Changes the session of the socket `sock` in `m_clients`. -/
def modify (s : Server) (sock : Socket) (f : ClientSession → ClientSession) : Server :=
  { s with clients := s.clients.modify sock f }

/-- `ChatServer::AddClient`.  The greeting goes to the new socket and its outcome is not looked at. -/
def addClient (s : Server) (cs : Socket) : Server :=
  { s with closes := Function.update s.closes cs (some 0),
           clients := s.clients.emplace cs ⟨s.count, some cs, s.log.length, [], false⟩,
           count := s.count + 1 }

/-- The recipients of a broadcast of the session `sender`. -/
def recipients (s : Server) (order : List Socket) (sender : ℕ) : List Socket :=
  order.filter fun sock => ∀ c ∈ s.clients.lookup sock, c.id ≠ sender

/-- `closesocket(sock)` -/
def closesocket (s : Server) (sock : Socket) : Server :=
  { s with closes := Function.update s.closes sock ((s.closes sock).map (· + 1)) }

/-- `m_clients.erase` -/
def erase (s : Server) (sock : Socket) : Server := { s with clients := s.clients.erase sock }

end Server

namespace ClientSession

/-- `send` has accepted the bytes `b`. -/
def accepted (c : ClientSession) (b : List UInt8) : ClientSession := { c with sent := c.sent ++ b }

/-- `SendMsg` returns early. -/
def cutShort (c : ClientSession) : ClientSession := { c with cut := true }

end ClientSession

/-! ## Steps -/

/-- What a call answers. -/
inductive Input where
  /-- `select`: `0`, `SOCKET_ERROR`, or the ready ones of the sockets in the set, which was built in the order
  `order`. -/
  | timeout | failed (e : WsaError) | ready (order set : List Socket)
  /-- `accept` -/
  | accepted (cs : Socket) | refused (e : WsaError)
  | recv (r : RecvResult) | send (r : SendResult)
  /-- A loop over `m_clients` begins, or another loop has ended. -/
  | loop (order : List Socket) | done
  deriving DecidableEq

/-- The position in `BroadcastMsg` before the `SendMsg` of the first of `recipients`. -/
def nextRecipient (order todo : List Socket) (msg : List UInt8) : List Socket → Position
  | [] => .receiving order todo
  | sock :: recipients => .sending order todo msg (sock :: recipients) msg

/-- `ClientSession::SendMsg` of the first recipient, after an answer of `send`. -/
def sendMsg (s : Server) (order todo : List Socket) (msg : List UInt8) (sock : Socket) (recipients : List Socket)
    (rest : List UInt8) : SendResult → Option State
  | .count n =>
    if 0 < n ∧ n ≤ rest.length then
      let s' := s.modify sock (·.accepted (rest.take n))
      if rest.drop n ≠ [] then some ⟨.sending order todo msg (sock :: recipients) (rest.drop n), s'⟩
      else some ⟨nextRecipient order todo msg recipients, s'⟩
    else none
  | .closed | .error _ => some ⟨nextRecipient order todo msg recipients, s.modify sock (·.cutShort)⟩

/-- `ClientSession::ReceiveMsg` of the client of `sock`, after the answer of `recv`. -/
def receiveMsg (s : Server) (order : List Socket) (sock : Socket) (todo : List Socket) : RecvResult → Option State
  | .bytes b =>
    match s.clients.lookup sock with
    | none => none
    | some c =>
      if b ≠ [] ∧ b.length ≤ recvBuf then
        some ⟨nextRecipient order todo b (s.recipients order c.id), { s with log := s.log ++ [⟨c.id, b⟩] }⟩
      else none
  | .closed => some ⟨.receiving order todo, { s with toClose := s.toClose ++ [sock] }⟩
  | .error e =>
    if e.again then some ⟨.receiving order todo, s⟩
    else some ⟨.receiving order todo, { s with toClose := s.toClose ++ [sock] }⟩

/-- `ChatServer::RemoveClient`: in `GracefulShutdown`, if the session has a socket, and after it. -/
def removeClient (s : Server) (sock : Socket) (todo : List Socket) : Input → Option State
  | .done =>
    match s.clients.lookup sock with
    | none => some ⟨.removing todo, s⟩
    | some ⟨_, none, _, _, _⟩ => some ⟨.removing todo, s.erase sock⟩
    | some ⟨_, some _, _, _, _⟩ => none
  | .recv r =>
    match (s.clients.lookup sock).bind (·.socket), r with
    | none, _ => none
    | some _, .bytes b => if b ≠ [] ∧ b.length ≤ recvBuf then some ⟨.removing (sock :: todo), s⟩ else none
    | some m, .closed | some m, .error _ => some ⟨.removing todo, (s.closesocket m).erase sock⟩
  | _ => none

/-- One answer in `ChatServer::RunEventLoop`. -/
def step : State → Input → Option State
  | ⟨.wait, s⟩, x =>
    if s.wsaInit = false then some ⟨.left, s⟩
    else
      match x with
      | .timeout => some ⟨.wait, s⟩
      | .failed e => some ⟨if e.again then .wait else .left, s⟩
      | .ready order set =>
        if s.IsOrder order ∧ set ≠ [] ∧ set ⊆ s.buildReadSet order then
          some ⟨.accepting set (s.listenSockets.filter (· ∈ set)), s⟩
        else none
      | _ => none
  | ⟨.accepting ready (l :: ls), s⟩, .accepted cs =>
    if s.IsOpen cs then none else some ⟨.accepting ready (l :: ls), s.addClient cs⟩
  | ⟨.accepting ready (_ :: ls), s⟩, .refused _ => some ⟨.accepting ready ls, s⟩
  | ⟨.accepting ready [], s⟩, .loop order =>
    if s.IsOrder order then some ⟨.receiving order (order.filter (· ∈ ready)), { s with toClose := [] }⟩ else none
  | ⟨.receiving order (sock :: todo), s⟩, .recv r => receiveMsg s order sock todo r
  | ⟨.receiving _ [], s⟩, .done => some ⟨.removing s.toClose, s⟩
  | ⟨.sending order todo msg (sock :: recipients) rest, s⟩, .send r => sendMsg s order todo msg sock recipients rest r
  | ⟨.removing (sock :: todo), s⟩, x => removeClient s sock todo x
  | ⟨.removing [], s⟩, .done => some ⟨.wait, { s with toClose := [] }⟩
  | _, _ => none

/-- The `select` server, from the start of `RunEventLoop` on. -/
def server : System State Input where
  init s := ∃ listenSockets, s = ⟨.wait, .start listenSockets⟩
  step := step

end TcpChat.Select
