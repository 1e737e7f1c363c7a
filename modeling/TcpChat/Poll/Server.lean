import TcpChat.EventLoop.Session
import TcpChat.Lib.System

/-!
# The `poll` server

`ChatServer` of `NetworkBasics/poll/Server`.  A step of the system is one iteration of `RunLoop`; its input is the
answer of `poll` and the answers of the calls that the handlers make.  An input whose answers end too early shows
the state in the middle of the iteration.
-/

namespace TcpChat.Poll

open TcpChat.Lib TcpChat.EventLoop

/-! ## Events -/

def pollIn : UInt16 := 0x001
def pollOut : UInt16 := 0x004
def pollErr : UInt16 := 0x008
def pollHup : UInt16 := 0x010
def pollNval : UInt16 := 0x020

/-- `pollfd` -/
structure Pollfd where
  fd : Fd
  events : UInt16
  revents : UInt16
  deriving DecidableEq

/-! ## `ChatServer` -/

/-- `ClientSession::Write`: `send` is called without flags. -/
def write (fd : Fd) : Prog Server Answer Bool := ClientSession.write 0 fd

/-- `ChatServer::BroadcastMsg` -/
def broadcastMsg (msg : List UInt8) (sender : ℕ) (s : Server) : Server :=
  { s with clients := s.clients.update fun _ c => if c.id ≠ sender then c.postSend msg else c,
           log := s.log ++ [⟨sender, msg⟩] }

/-- `ClientSession::Read` -/
def read (this : ℕ) : Prog Server Answer Bool := ClientSession.read broadcastMsg this

/-- `ChatServer::RebuildPollSet`, with the clients in the order `order` of the hash map. -/
def rebuildPollSet (s : Server) (order : List Fd) : List Pollfd :=
  s.listenSockets.map (fun fd => ⟨fd, pollIn, 0⟩) ++
    order.map fun fd =>
      match s.clients.lookup fd with
      | some c => ⟨fd, if c.isWantSend then pollIn ||| pollOut else pollIn, 0⟩
      | none => ⟨fd, pollIn, 0⟩

/-- `ChatServer::CloseClient`, with `SafeCloseSocket` at its end. -/
def closeClient (fd : Fd) : Prog Server Answer Unit := do
  let s ← Prog.get
  (if fd ∈ s.clients then do
    ClientSession.stop fd
    Prog.modify (·.erase fd)
  else pure ())
  Prog.modify (·.close fd)

/-- `ChatServer::AcceptAll`.  The greeting goes to the new socket and its outcome is not looked at. -/
def acceptAll : Prog Server Answer Unit
  | s, .accepted cs :: l => if s.IsOpen cs then .halt .blocked s else acceptAll (s.emplace cs) l
  | s, .refused _ :: l => .ret () s l
  | s, _ => .halt .blocked s

/-- `ChatServer::HandleListeners`, on the entries of the listeners. -/
def handleListeners : List Pollfd → Prog Server Answer Unit
  | [] => pure ()
  | pfd :: pfds =>
    if pfd.revents &&& (pollErr ||| pollHup ||| pollNval) ≠ 0 then
      Prog.modify fun s => { s with running := false }
    else if pfd.revents &&& pollIn ≠ 0 then do
      acceptAll
      handleListeners pfds
    else handleListeners pfds

/-- The body of the loop of `ChatServer::HandleClients`. -/
def handleClient (pfd : Pollfd) : Prog Server Answer Unit := do
  if pfd.revents &&& (pollErr ||| pollHup ||| pollNval) ≠ 0 then
    closeClient pfd.fd
  else
    match (← Prog.get).clients.lookup pfd.fd with
    | none => pure ()
    | some sess => do
      let readable ← (if pfd.revents &&& pollIn ≠ 0 then read sess.id else pure true)
      if readable then
        let writable ← (if pfd.revents &&& pollOut ≠ 0 then write pfd.fd else pure true)
        if writable then pure () else closeClient pfd.fd
      else closeClient pfd.fd

/-- `ChatServer::HandleClients`, on the entries of the clients. -/
def handleClients : List Pollfd → Prog Server Answer Unit := Prog.each handleClient

/-- `ChatServer::Stop` -/
def stop : Prog Server Answer Unit := do
  let s ← Prog.get
  if s.running = false ∧ s.listenSockets = [] ∧ s.clients.keys = [] then
    pure ()
  else
    Prog.each ClientSession.stop s.clients.keys
    Prog.modify fun s => { s with clients := ∅ }
    Prog.each (fun fd => Prog.modify (·.close fd)) s.listenSockets
    Prog.modify fun s => { s with listenSockets := [], running := false }

/-! ## Runs -/

/-- What `poll` answers: `-1` with `EINTR` or another error, `0`, or the number of ready entries.  Then `order` is
the order in which the map was gone through, `revents` are the events of the entries, and `answers` are the answers
of the handlers' calls. -/
inductive Input where
  | interrupted | failed | timeout
  | ready (order : List Fd) (revents : List UInt16) (answers : List Answer)
  /-- The answers of the calls that `Stop` makes after the loop. -/
  | stop (answers : List Answer)
  deriving DecidableEq

/-- One iteration of `ChatServer::RunLoop`, and the `Stop` after it. -/
def step : State → Input → Option State
  | ⟨.loop, s⟩, .interrupted | ⟨.loop, s⟩, .timeout => some ⟨.loop, s⟩
  | ⟨.loop, s⟩, .failed => some ⟨.stopping, s⟩
  | ⟨.loop, s⟩, .ready order revents answers =>
    if order.Perm s.clients.keys ∧ revents.length = (rebuildPollSet s order).length then
      let pfds := (rebuildPollSet s order).zipWith (fun pfd r => { pfd with revents := r }) revents
      let n := s.listenSockets.length
      some (.of loopTest ((do
        handleListeners (pfds.take n)
        handleClients (pfds.drop n)) s answers))
    else none
  | ⟨.stopping, s⟩, .stop answers => some (.of (fun _ => .stopped) (stop s answers))
  | _, _ => none

/-- The `poll` server, from the start of `RunLoop` on. -/
def server : System State Input where
  init s := ∃ listenSockets, s = ⟨.loop, .start listenSockets fun _ => none⟩
  step := step

end TcpChat.Poll
