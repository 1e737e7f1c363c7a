import TcpChat.EventLoop.Session
import TcpChat.Lib.System

/-!
# The `epoll` server

`ChatServer` of `NetworkBasics/epoll/Server`, of which `Design/event_loop/Server` is a copy.  A step of the system is
one iteration of `RunLoop`; its input is the batch that `epoll_wait` reports and, with each event, the answers of the
calls that its handler makes.  An input whose answers end too early shows the state in the middle of the batch.
-/

namespace TcpChat.Epoll

open TcpChat.Lib TcpChat.EventLoop

/-! ## `epoll` -/

/-- `MAX_EVENTS` -/
def maxEvents : ℕ := 1024

/-- `epoll_ctl(m_epoll, EPOLL_CTL_ADD, fd, &ev)` -/
def epollCtlAdd (s : Server) (fd : Fd) (events : UInt32) : Server :=
  match s.interest fd with
  | none => { s with interest := Function.update s.interest fd (some ⟨events, true⟩) }
  | some _ => s

/-- `epoll_ctl(m_epoll, EPOLL_CTL_MOD, fd, &ev)` -/
def epollCtlMod (s : Server) (fd : Fd) (events : UInt32) : Server :=
  match s.interest fd with
  | none => s
  | some _ => { s with interest := Function.update s.interest fd (some ⟨events, true⟩) }

/-- `epoll_ctl(m_epoll, EPOLL_CTL_DEL, fd, nullptr)` -/
def epollCtlDel (s : Server) (fd : Fd) : Server := { s with interest := Function.update s.interest fd none }

/-- A reported event, with the answers of the calls that its handler makes. -/
structure Event where
  fd : Fd
  events : UInt32
  answers : List Answer
  deriving DecidableEq

/-- `epoll_wait` may report the event: the entry is armed and the events are among those asked for, or errors. -/
def Reports (s : Server) (e : Event) : Prop :=
  match s.interest e.fd with
  | none => False
  | some r =>
    r.armed = true ∧ e.events ≠ 0 ∧ e.events &&& (epollEt ||| epollOneShot) = 0 ∧
      e.events &&& ~~~(r.events ||| epollErr ||| epollHup) = 0

instance (s : Server) : DecidablePred (Reports s) := fun e =>
  match h : s.interest e.fd with
  | none => isFalse (by simp [Reports, h])
  | some r => decidable_of_iff (r.armed = true ∧ e.events ≠ 0 ∧ e.events &&& (epollEt ||| epollOneShot) = 0 ∧
      e.events &&& ~~~(r.events ||| epollErr ||| epollHup) = 0) (by simp [Reports, h])

/-- The report disarms a one-shot entry. -/
def Registration.reported (r : Registration) : Registration :=
  if r.events &&& epollOneShot ≠ 0 then { r with armed := false } else r

/-- The state after a report about the descriptors `fds`. -/
def report (s : Server) (fds : List Fd) : Server :=
  { s with interest := fun fd => if fd ∈ fds then (s.interest fd).map Registration.reported else s.interest fd }

/-! ## `ChatServer` -/

/-- `ClientSession::Write`: `send` is called with `MSG_NOSIGNAL`. -/
def write (fd : Fd) : Prog Server Answer Bool := ClientSession.write msgNoSignal fd

/-- The mask of a client in `AddClientToEpoll` and `ModClientWritable`. -/
def clientMask (c : ClientSession) : UInt32 :=
  if c.isWantSend then epollIn ||| epollRdHup ||| epollEt ||| epollOneShot ||| epollOut
  else epollIn ||| epollRdHup ||| epollEt ||| epollOneShot

/-- `ChatServer::AddClientToEpoll` -/
def addClientToEpoll (fd : Fd) (s : Server) : Server :=
  match s.clients.lookup fd with
  | none => s
  | some c => epollCtlAdd s fd (clientMask c)

/-- `ChatServer::ModClientWritable` -/
def modClientWritable (fd : Fd) (s : Server) : Server :=
  match s.clients.lookup fd with
  | none => s
  | some c => epollCtlMod s fd (clientMask c)

/-- The body of the loop of `ChatServer::BroadcastMsg`, for the entry of `fd`. -/
def broadcastTo (msg : List UInt8) (sender : ℕ) (s : Server) (fd : Fd) : Server :=
  match s.clients.lookup fd with
  | none => s
  | some c => if c.id ≠ sender then modClientWritable fd (s.modify fd (·.postSend msg)) else s

/-- `ChatServer::BroadcastMsg` -/
def broadcastMsg (msg : List UInt8) (sender : ℕ) (s : Server) : Server :=
  { s.clients.keys.foldl (broadcastTo msg sender) s with log := s.log ++ [⟨sender, msg⟩] }

/-- `ClientSession::Read` -/
def read (this : ℕ) : Prog Server Answer Bool := ClientSession.read broadcastMsg this

/-- `ChatServer::CloseClient`, with `SafeCloseSocket` at its end. -/
def closeClient (fd : Fd) : Prog Server Answer Unit := do
  let s ← Prog.get
  (if fd ∈ s.clients then do
    ClientSession.stop fd
    Prog.modify (·.erase fd)
  else pure ())
  Prog.modify fun s => (epollCtlDel s fd).close fd

/-- `ChatServer::AcceptAll`.  The greeting goes to the new socket and its outcome is not looked at. -/
def acceptAll : Prog Server Answer Unit
  | s, .accepted cs :: l =>
    if s.IsOpen cs then .halt .blocked s else acceptAll (addClientToEpoll cs (s.emplace cs)) l
  | s, .refused _ :: l => .ret () s l
  | s, _ => .halt .blocked s

/-- `ChatServer::HandleListeners` -/
def handleListeners (event : UInt32) : Prog Server Answer Unit :=
  if event &&& (epollErr ||| epollHup ||| epollRdHup) ≠ 0 then
    Prog.modify fun s => { s with running := false }
  else if event &&& epollIn ≠ 0 then acceptAll
  else pure ()

/-- `ChatServer::HandleClients` -/
def handleClients (sfd : Fd) (event : UInt32) : Prog Server Answer Unit := do
  if event &&& (epollErr ||| epollHup ||| epollRdHup) ≠ 0 then
    closeClient sfd
  else
    match (← Prog.get).clients.lookup sfd with
    | none => pure ()
    | some sess => do
      let readable ← (if event &&& epollIn ≠ 0 then read sess.id else pure true)
      if readable then
        if event &&& epollOut ≠ 0 then
          let writable ← write sfd
          if writable then Prog.modify (modClientWritable sfd) else closeClient sfd
        else pure ()
      else closeClient sfd

/-- The body of the loop over the events in `ChatServer::RunLoop`. -/
def handleEvent (e : Event) (s : Server) : Outcome Server Answer Unit :=
  if e.fd ∈ s.listenSockets then handleListeners e.events s e.answers else handleClients e.fd e.events s e.answers

/-- The loop over the events in `ChatServer::RunLoop`. -/
def handleEvents : List Event → Server → Outcome Server Answer Unit
  | [], s => .ret () s []
  | e :: es, s =>
    match handleEvent e s with
    | .ret _ s' _ => handleEvents es s'
    | .halt h s' => .halt h s'

/-- `ChatServer::Stop` -/
def stop : Prog Server Answer Unit := do
  let s ← Prog.get
  if s.running = false ∧ s.listenSockets = [] ∧ s.clients.keys = [] then
    pure ()
  else
    Prog.each ClientSession.stop s.clients.keys
    Prog.modify fun s => { s with clients := ∅ }
    Prog.each (fun fd => Prog.modify (·.close fd)) s.listenSockets
    -- m_epoll is closed here
    Prog.modify fun s => { s with listenSockets := [], interest := fun _ => none, running := false }

/-! ## Runs -/

/-- What `epoll_wait` answers: `-1` with `EINTR` or another error, or a batch. -/
inductive Input where
  | interrupted | failed | events (batch : List Event)
  /-- The answers of the calls that `Stop` makes after the loop. -/
  | stop (answers : List Answer)
  deriving DecidableEq

/-- One iteration of `ChatServer::RunLoop`, and the `Stop` after it. -/
def step : State → Input → Option State
  | ⟨.loop, s⟩, .interrupted => some ⟨.loop, s⟩
  | ⟨.loop, s⟩, .failed => some ⟨.stopping, s⟩
  | ⟨.loop, s⟩, .events batch =>
    if (batch.map Event.fd).Nodup ∧ batch.length ≤ maxEvents ∧ ∀ e ∈ batch, Reports s e then
      some (.of loopTest (handleEvents batch (report s (batch.map Event.fd))))
    else none
  | ⟨.stopping, s⟩, .stop answers => some (.of (fun _ => .stopped) (stop s answers))
  | _, _ => none

/-- The state in which `Start` enters `RunLoop`: the listening sockets are registered. -/
def start (listenSockets : List Fd) : State :=
  ⟨.loop, .start listenSockets fun fd => if fd ∈ listenSockets then some ⟨epollIn, true⟩ else none⟩

/-- The `epoll` server, from the start of `RunLoop` on. -/
def server : System State Input where
  init s := ∃ listenSockets, s = start listenSockets
  step := step

end TcpChat.Epoll
