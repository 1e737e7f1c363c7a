import TcpChat.Framing.Stepwise
import TcpChat.Lib.System

/-!
# The framing server

The threads of `Protocols/Framing/Server`: one accept thread for every listening socket (`AcceptClients`), a
`RecvLoop` and a `SendLoop` for every session, and the thread that calls `ChatServer::Stop`.

* A thread is a position in its function (`AcceptPc`, `RecvPc`, `SendPc`, `StopPc`); a step of a thread is one
  access to the state it shares with the others: an atomic load or store, a mutex operation, a statement under a
  mutex, a call on a socket.
* A mutex is its holder.  Waiting on a condition variable releases the mutex and parks the thread in one step; the
  list of parked threads loses a thread when it is notified.  A parked thread may also wake by itself.
* A session is a number, in the order of `accept`.  `unread` holds all the bytes that its client has still to
  deliver, so that how far they have arrived is part of the choice of each `recv`.
* What the environment decides (what `accept`, `recv` and `send` answer, which thread `notify_one` wakes) is the
  input of the step.
-/

namespace TcpChat.FramingServer

open TcpChat.Framing TcpChat.Lib

/-- `TX_HWM_BYTES` -/
def txHwmBytes : ℕ := 256 * 1024

inductive Thread where
  | accept (k : ℕ) | recv (i : ℕ) | send (i : ℕ) | stop
  deriving DecidableEq

/-- A queued message.  The queue of the source holds the bytes; the session that sent it is remembered here only
to state who received what. -/
structure Msg where
  src : ℕ
  body : List UInt8
  deriving DecidableEq

/-- A call of `SendMsg` in the loop of `BroadcastMsg`: the message, the recipient, the recipients after it. -/
structure Call where
  msg : List UInt8
  dest : ℕ
  rest : List ℕ
  deriving DecidableEq

/-! ## Positions -/

/-- `ChatServer::AcceptClients`, with `ClientSession::Start` in it. -/
inductive AcceptPc where
  | test | call
  | startActive (i : ℕ) | startRecv (i : ℕ) | startSend (i : ℕ)
  | lock (i : ℕ) | push (i : ℕ) | unlock | done
  deriving DecidableEq

/-- `ClientSession::RecvLoop`, with `ChatServer::BroadcastMsg` and `ClientSession::SendMsg` in it. -/
inductive RecvPc where
  | off | test | frame (r : FrameReader)
  | castLock (msg : List UInt8) | castCopy (msg : List UInt8)
  | castUnlock (msg : List UInt8) (snapshot : List ℕ) | cast (msg : List UInt8) (snapshot : List ℕ)
  | sendTest (c : Call) | sendLock (c : Call) | sendPred (c : Call) | sendPark (c : Call) | sendParked (c : Call)
  | sendRetest (c : Call) | sendPush (c : Call) | sendAdd (c : Call) | sendUnlock (c : Call)
  | sendReturn (c : Call) | sendNotify (c : Call)
  | endStore | endLock | endNotifyEmpty | endNotifyFull | endUnlock | done
  deriving DecidableEq

/-- `ClientSession::SendLoop` -/
inductive SendPc where
  | off | lock | pred | park | parked | test | breakUnlock | pop
  | sub (msg : Msg) | notify (msg : Msg) | unlock (msg : Msg) | frame (msg : Msg) (w : FrameWriter)
  | failStore | failNotifyEmpty | failNotifyFull | done
  deriving DecidableEq

/-- `ChatServer::Stop`, with `ClientSession::Stop` of the session `i` in it; `rest` are the clients after `i`. -/
inductive StopPc where
  | idle | closeListeners | joinAccept (k : ℕ) | lock | next (rest : List ℕ)
  | store (i : ℕ) (rest : List ℕ) | lockTx (i : ℕ) (rest : List ℕ) | notifyEmpty (i : ℕ) (rest : List ℕ)
  | notifyFull (i : ℕ) (rest : List ℕ) | unlockTx (i : ℕ) (rest : List ℕ) | shutdown (i : ℕ) (rest : List ℕ)
  | frame (i : ℕ) (rest : List ℕ) (r : FrameReader) | close (i : ℕ) (rest : List ℕ)
  | joinRecv (i : ℕ) (rest : List ℕ) | joinSend (i : ℕ) (rest : List ℕ) | relockTx (i : ℕ) (rest : List ℕ)
  | clear (i : ℕ) (rest : List ℕ) | zero (i : ℕ) (rest : List ℕ) | reunlockTx (i : ℕ) (rest : List ℕ)
  | clearClients | unlock | done
  deriving DecidableEq

/-! ## State -/

/-- `ClientSession` -/
structure Session where
  active : Bool
  /-- `m_socket != INVALID_SOCKET` -/
  valid : Bool
  unread : List UInt8
  wire : List UInt8
  txMutex : Option Thread
  txNotEmpty : List Thread
  txNotFull : List Thread
  txQueue : List Msg
  txBytesQueued : ℕ
  /-- The thread objects `m_rxThread` and `m_txThread` have been created. -/
  recvStarted : Bool
  sendStarted : Bool
  /-- History: the payloads its `RecvLoop` got, and how many of their broadcasts have returned. -/
  decoded : List (List UInt8)
  returned : ℕ
  /-- History: the first of its broadcasts whose snapshot contained the session. -/
  since : ℕ → Option ℕ
  /-- History: the messages handed to `send_frame`. -/
  handed : List Msg

/-- `ClientSession::ClientSession(socket, server)`, on a connection that will deliver `stream`. -/
def Session.new (stream : List UInt8) : Session where
  active := false
  valid := true
  unread := stream
  wire := []
  txMutex := none
  txNotEmpty := []
  txNotFull := []
  txQueue := []
  txBytesQueued := 0
  recvStarted := false
  sendStarted := false
  decoded := []
  returned := 0
  since := fun _ => none
  handed := []

/-- `ChatServer`, with the positions of all threads; `acceptors` is the size of `m_acceptThreads`, `count` the
number of sessions made so far. -/
structure Server where
  running : Bool
  listening : Bool
  acceptors : ℕ
  clients : List ℕ
  clientsMutex : Option Thread
  count : ℕ
  sess : ℕ → Session
  accept : ℕ → AcceptPc
  recv : ℕ → RecvPc
  send : ℕ → SendPc
  stop : StopPc

/-- The state in which `ChatServer::Start` has started its accept threads. -/
def Server.start (acceptors : ℕ) : Server where
  running := true
  listening := true
  acceptors := acceptors
  clients := []
  clientsMutex := none
  count := 0
  sess := fun _ => Session.new []
  accept := fun k => if k < acceptors then .test else .done
  recv := fun _ => .off
  send := fun _ => .off
  stop := .idle

/-- The environment's part in a step. -/
inductive Input where
  | go
  | accepted (stream : List UInt8) | refused
  | count (n : ℕ) | closed | error (e : WsaError)
  | wake (k : ℕ)
  deriving DecidableEq

/-- The history `since` after the broadcast number `n`, whose snapshot is `snapshot`. -/
def noteSince (since : ℕ → Option ℕ) (n : ℕ) (snapshot : List ℕ) (r : ℕ) : Option ℕ :=
  if since r = none ∧ r ∈ snapshot then some n else since r

/-- The wait predicate of `SendMsg` for a message of `size` bytes. -/
def Session.HasRoom (c : Session) (size : ℕ) : Prop :=
  c.active = false ∨ c.txBytesQueued + size ≤ txHwmBytes

instance (c : Session) (size : ℕ) : Decidable (c.HasRoom size) := inferInstanceAs (Decidable (_ ∨ _))

/-! ## The sockets -/

/-- `recv(m_socket, buf, wants, 0)`: what it may report, and the bytes that stay unread.  `0` is reported when the
client has delivered everything and closed. -/
def Session.recvCall (c : Session) (wants : ℕ) : Input → Option (RecvResult × List UInt8)
  | .count n =>
    if c.valid = true ∧ 0 < n ∧ n ≤ wants ∧ n ≤ c.unread.length then some (.bytes (c.unread.take n), c.unread.drop n)
    else none
  | .closed => if c.unread = [] then some (.closed, []) else none
  | .error e => some (.error e, c.unread)
  | _ => none

theorem Session.recvCall_count {c : Session} {w n : ℕ} (hv : c.valid = true) (h0 : 0 < n) (hw : n ≤ w)
    (hu : n ≤ c.unread.length) :
    c.recvCall w (.count n) = some (.bytes (c.unread.take n), c.unread.drop n) :=
  if_pos ⟨hv, h0, hw, hu⟩

/-- `send(m_socket, data, data.length, 0)`: what it may report, and the bytes accepted. -/
def Session.sendCall (c : Session) (data : List UInt8) :
    Input → Option (SendResult × List UInt8)
  | .count n => if c.valid = true ∧ 0 < n ∧ n ≤ data.length then some (.count n, data.take n) else none
  | .closed => some (.closed, [])
  | .error e => some (.error e, [])
  | _ => none

/-! ## Steps -/

namespace Server

def setAccept (s : Server) (k : ℕ) (p : AcceptPc) : Server := { s with accept := Function.update s.accept k p }
def setRecv (s : Server) (i : ℕ) (p : RecvPc) : Server := { s with recv := Function.update s.recv i p }
def setSend (s : Server) (i : ℕ) (p : SendPc) : Server := { s with send := Function.update s.send i p }
def setStop (s : Server) (p : StopPc) : Server := { s with stop := p }

/-- Changes the session `i`. -/
def modify (s : Server) (i : ℕ) (f : Session → Session) : Server :=
  { s with sess := Function.update s.sess i (f (s.sess i)) }

/-- One step of the accept thread `k`. -/
def acceptStep (s : Server) (k : ℕ) (x : Input) : Option Server :=
  match s.accept k, x with
  | .test, .go => some (s.setAccept k (if s.running then .call else .done))
  | .call, .refused => some (s.setAccept k .test)
  | .call, .accepted stream =>
    if s.listening then
      some ({ s with count := s.count + 1,
                     sess := Function.update s.sess s.count (Session.new stream) }.setAccept k (.startActive s.count))
    else none
  | .startActive i, .go => some ((s.modify i fun c => { c with active := true }).setAccept k (.startRecv i))
  | .startRecv i, .go => some ((s.modify i fun c => { c with recvStarted := true }).setAccept k (.startSend i))
  | .startSend i, .go => some ((s.modify i fun c => { c with sendStarted := true }).setAccept k (.lock i))
  | .lock i, .go =>
    if s.clientsMutex = none then some ({ s with clientsMutex := some (.accept k) }.setAccept k (.push i)) else none
  | .push i, .go => some ({ s with clients := s.clients ++ [i] }.setAccept k .unlock)
  | .unlock, .go => some ({ s with clientsMutex := none }.setAccept k .test)
  | _, _ => none

/-- One step of the `RecvLoop` of the session `i`. -/
def recvStep (s : Server) (i : ℕ) (x : Input) : Option Server :=
  match s.recv i, x with
  | .off, .go => if (s.sess i).recvStarted then some (s.setRecv i .test) else none
  | .test, .go => some (s.setRecv i (if (s.sess i).active then .frame .start else .endStore))
  | .frame r, x =>
    match (s.sess i).recvCall r.wants x with
    | none => none
    | some (res, unread) =>
      match r.turn res with
      | .again r' => some ((s.modify i fun c => { c with unread := unread }).setRecv i (.frame r'))
      | .ret none => some ((s.modify i fun c => { c with unread := unread }).setRecv i .endStore)
      | .ret (some msg) =>
        some ((s.modify i fun c => { c with unread := unread, decoded := c.decoded ++ [msg] }).setRecv i
          (.castLock msg))
  -- BroadcastMsg
  | .castLock msg, .go =>
    if s.clientsMutex = none then some ({ s with clientsMutex := some (.recv i) }.setRecv i (.castCopy msg)) else none
  | .castCopy msg, .go =>
    let snapshot := s.clients.filter fun r => r ≠ i
    some ((s.modify i fun c => { c with since := noteSince c.since (c.decoded.length - 1) snapshot }).setRecv i
      (.castUnlock msg snapshot))
  | .castUnlock msg snapshot, .go => some ({ s with clientsMutex := none }.setRecv i (.cast msg snapshot))
  | .cast _ [], .go => some ((s.modify i fun c => { c with returned := c.returned + 1 }).setRecv i .test)
  | .cast msg (dest :: rest), .go => some (s.setRecv i (.sendTest ⟨msg, dest, rest⟩))
  -- SendMsg
  | .sendTest c, .go => some (s.setRecv i (if (s.sess c.dest).active then .sendLock c else .cast c.msg c.rest))
  | .sendLock c, .go =>
    if (s.sess c.dest).txMutex = none then
      some ((s.modify c.dest fun d => { d with txMutex := some (.recv i) }).setRecv i (.sendPred c))
    else none
  | .sendPred c, .go =>
    some (s.setRecv i (if (s.sess c.dest).HasRoom c.msg.length then .sendRetest c else .sendPark c))
  | .sendPark c, .go =>
    some ((s.modify c.dest fun d => { d with txMutex := none, txNotFull := .recv i :: d.txNotFull }).setRecv i
      (.sendParked c))
  | .sendParked c, .go =>
    if (s.sess c.dest).txMutex = none then
      some ((s.modify c.dest fun d =>
        { d with txMutex := some (.recv i), txNotFull := d.txNotFull.erase (.recv i) }).setRecv i (.sendPred c))
    else none
  | .sendRetest c, .go => some (s.setRecv i (if (s.sess c.dest).active then .sendPush c else .sendReturn c))
  | .sendPush c, .go =>
    some ((s.modify c.dest fun d => { d with txQueue := d.txQueue ++ [⟨i, c.msg⟩] }).setRecv i (.sendAdd c))
  | .sendAdd c, .go =>
    some ((s.modify c.dest fun d => { d with txBytesQueued := d.txBytesQueued + c.msg.length }).setRecv i
      (.sendUnlock c))
  | .sendUnlock c, .go => some ((s.modify c.dest fun d => { d with txMutex := none }).setRecv i (.sendNotify c))
  | .sendReturn c, .go => some ((s.modify c.dest fun d => { d with txMutex := none }).setRecv i (.cast c.msg c.rest))
  | .sendNotify c, .wake k =>
    if k < (s.sess c.dest).txNotEmpty.length ∨ (s.sess c.dest).txNotEmpty = [] then
      some ((s.modify c.dest fun d => { d with txNotEmpty := d.txNotEmpty.eraseIdx k }).setRecv i (.cast c.msg c.rest))
    else none
  -- after the loop
  | .endStore, .go => some ((s.modify i fun c => { c with active := false }).setRecv i .endLock)
  | .endLock, .go =>
    if (s.sess i).txMutex = none then
      some ((s.modify i fun c => { c with txMutex := some (.recv i) }).setRecv i .endNotifyEmpty)
    else none
  | .endNotifyEmpty, .go => some ((s.modify i fun c => { c with txNotEmpty := [] }).setRecv i .endNotifyFull)
  | .endNotifyFull, .go => some ((s.modify i fun c => { c with txNotFull := [] }).setRecv i .endUnlock)
  | .endUnlock, .go => some ((s.modify i fun c => { c with txMutex := none }).setRecv i .done)
  | _, _ => none

/-- One step of the `SendLoop` of the session `i`. -/
def sendStep (s : Server) (i : ℕ) (x : Input) : Option Server :=
  match s.send i, x with
  | .off, .go => if (s.sess i).sendStarted then some (s.setSend i .lock) else none
  | .lock, .go =>
    if (s.sess i).txMutex = none then
      some ((s.modify i fun c => { c with txMutex := some (.send i) }).setSend i .pred)
    else none
  | .pred, .go =>
    some (s.setSend i (if (s.sess i).active = false ∨ (s.sess i).txQueue ≠ [] then .test else .park))
  | .park, .go =>
    some ((s.modify i fun c => { c with txMutex := none, txNotEmpty := .send i :: c.txNotEmpty }).setSend i .parked)
  | .parked, .go =>
    if (s.sess i).txMutex = none then
      some ((s.modify i fun c =>
        { c with txMutex := some (.send i), txNotEmpty := c.txNotEmpty.erase (.send i) }).setSend i .pred)
    else none
  | .test, .go =>
    some (s.setSend i (if (s.sess i).active = false ∧ (s.sess i).txQueue = [] then .breakUnlock else .pop))
  | .breakUnlock, .go => some ((s.modify i fun c => { c with txMutex := none }).setSend i .done)
  | .pop, .go =>
    match (s.sess i).txQueue with
    | [] => none
    | msg :: queue => some ((s.modify i fun c => { c with txQueue := queue }).setSend i (.sub msg))
  | .sub msg, .go =>
    some ((s.modify i fun c => { c with txBytesQueued :=
      if msg.body.length ≤ c.txBytesQueued then c.txBytesQueued - msg.body.length else 0 }).setSend i (.notify msg))
  | .notify msg, .go => some ((s.modify i fun c => { c with txNotFull := [] }).setSend i (.unlock msg))
  | .unlock msg, .go =>
    let s' := s.modify i fun c => { c with txMutex := none, handed := c.handed ++ [msg] }
    match FrameWriter.start msg.body with
    | .again w => some (s'.setSend i (.frame msg w))
    | .ret true => some (s'.setSend i .lock)
    | .ret false => some (s'.setSend i .failStore)
  | .frame msg w, x =>
    match (s.sess i).sendCall (w.offer msg.body) x with
    | none => none
    | some (res, out) =>
      let s' := s.modify i fun c => { c with wire := c.wire ++ out }
      match w.turn msg.body res with
      | .again w' => some (s'.setSend i (.frame msg w'))
      | .ret true => some (s'.setSend i .lock)
      | .ret false => some (s'.setSend i .failStore)
  | .failStore, .go => some ((s.modify i fun c => { c with active := false }).setSend i .failNotifyEmpty)
  | .failNotifyEmpty, .go => some ((s.modify i fun c => { c with txNotEmpty := [] }).setSend i .failNotifyFull)
  | .failNotifyFull, .go => some ((s.modify i fun c => { c with txNotFull := [] }).setSend i .done)
  | _, _ => none

/-- One step of the thread in `ChatServer::Stop`. -/
def stopStep (s : Server) (x : Input) : Option Server :=
  match s.stop, x with
  | .idle, .go => some ({ s with running := false }.setStop .closeListeners)
  | .closeListeners, .go => some ({ s with listening := false }.setStop (.joinAccept 0))
  | .joinAccept k, .go =>
    if k < s.acceptors then
      if s.accept k = .done then some (s.setStop (.joinAccept (k + 1))) else none
    else some (s.setStop .lock)
  | .lock, .go =>
    if s.clientsMutex = none then some ({ s with clientsMutex := some .stop }.setStop (.next s.clients)) else none
  | .next [], .go => some (s.setStop .clearClients)
  | .next (i :: rest), .go => some (s.setStop (.store i rest))
  -- ClientSession::Stop
  | .store i rest, .go => some ((s.modify i fun c => { c with active := false }).setStop (.lockTx i rest))
  | .lockTx i rest, .go =>
    if (s.sess i).txMutex = none then
      some ((s.modify i fun c => { c with txMutex := some .stop }).setStop (.notifyEmpty i rest))
    else none
  | .notifyEmpty i rest, .go => some ((s.modify i fun c => { c with txNotEmpty := [] }).setStop (.notifyFull i rest))
  | .notifyFull i rest, .go => some ((s.modify i fun c => { c with txNotFull := [] }).setStop (.unlockTx i rest))
  | .unlockTx i rest, .go => some ((s.modify i fun c => { c with txMutex := none }).setStop (.shutdown i rest))
  | .shutdown i rest, .go =>
    some (s.setStop (if (s.sess i).valid then .frame i rest .start else .joinRecv i rest))
  | .frame i rest r, x =>
    match (s.sess i).recvCall r.wants x with
    | none => none
    | some (res, unread) =>
      let s' := s.modify i fun c => { c with unread := unread }
      match r.turn res with
      | .again r' => some (s'.setStop (.frame i rest r'))
      | .ret _ => some (s'.setStop (.close i rest))
  | .close i rest, .go => some ((s.modify i fun c => { c with valid := false }).setStop (.joinRecv i rest))
  | .joinRecv i rest, .go =>
    if (s.sess i).recvStarted = true → s.recv i = .done then some (s.setStop (.joinSend i rest)) else none
  | .joinSend i rest, .go =>
    if (s.sess i).sendStarted = true → s.send i = .done then some (s.setStop (.relockTx i rest)) else none
  | .relockTx i rest, .go =>
    if (s.sess i).txMutex = none then
      some ((s.modify i fun c => { c with txMutex := some .stop }).setStop (.clear i rest))
    else none
  | .clear i rest, .go => some ((s.modify i fun c => { c with txQueue := [] }).setStop (.zero i rest))
  | .zero i rest, .go => some ((s.modify i fun c => { c with txBytesQueued := 0 }).setStop (.reunlockTx i rest))
  | .reunlockTx i rest, .go => some ((s.modify i fun c => { c with txMutex := none }).setStop (.next rest))
  -- back in ChatServer::Stop
  | .clearClients, .go => some ({ s with clients := [] }.setStop .unlock)
  | .unlock, .go => some ({ s with clientsMutex := none }.setStop .done)
  | _, _ => none

/-- One step of a thread. -/
def step (s : Server) : Thread × Input → Option Server
  | (.accept k, x) => s.acceptStep k x
  | (.recv i, x) => s.recvStep i x
  | (.send i, x) => s.sendStep i x
  | (.stop, x) => s.stopStep x

variable {s : Server} {i : ℕ} {r : FrameReader} {x : Input} {res : RecvResult} {unread : List UInt8}

/-- A turn of `recv_frame` in a `RecvLoop` that does not end the call. -/
theorem recvStep_frame_again {r' : FrameReader} (hp : s.recv i = .frame r)
    (hx : (s.sess i).recvCall r.wants x = some (res, unread)) (ht : r.turn res = .again r') :
    s.recvStep i x = some ((s.modify i fun c => { c with unread := unread }).setRecv i (.frame r')) := by
  simp only [recvStep, hp, hx, ht]

/-- A turn of `recv_frame` in a `RecvLoop` that yields a message. -/
theorem recvStep_frame_ret {msg : List UInt8} (hp : s.recv i = .frame r)
    (hx : (s.sess i).recvCall r.wants x = some (res, unread)) (ht : r.turn res = .ret (some msg)) :
    s.recvStep i x = some ((s.modify i fun c => { c with unread := unread, decoded := c.decoded ++ [msg] }).setRecv i
      (.castLock msg)) := by
  simp only [recvStep, hp, hx, ht]

end Server

/-- The framing server, from the start of its accept threads on. -/
def server : System Server (Thread × Input) where
  init s := ∃ n, s = .start n
  step := Server.step

end TcpChat.FramingServer
