import TcpChat.EventLoop.Session
import TcpChat.Lib.System

/-!
# The `epoll` client

`ChatClient` of `NetworkBasics/epoll/Client`, with the two threads of its `main`: the network thread runs `Start`,
the input thread reads lines and calls `Send` and `Stop`.

* A thread is a position in its function; a step of a thread is one access to the state it shares with the other
  thread: a load or store, a mutex operation, a statement under the mutex, a system call.
* The mutex is the list of its lockings that are not undone.  A `std::mutex` cannot be locked again by its holder;
  the parameter `reentrant` says whether it can.
* `ModWritable` and `Stop` are called from several places: their positions and steps are shared, and the network
  thread remembers where it was called from.
-/

namespace TcpChat.EpollClient

open TcpChat.Lib TcpChat.EventLoop

/-- `MAX_EVENTS` -/
def maxEvents : ℕ := 16

/-- `EPOLLIN | EPOLLRDHUP | EPOLLET` -/
def baseMask : UInt32 := epollIn ||| epollRdHup ||| epollEt

inductive Thread where
  | net | input
  deriving DecidableEq

/-! ## Positions -/

/-- `ChatClient::ModWritable` -/
inductive ModPc where
  | test | lock | read | unlock (event : UInt32) | ctl (event : UInt32)
  deriving DecidableEq

/-- `ChatClient::Stop` -/
inductive StopPc where
  | store | test | shutdown | closeSocket | closeEpoll
  deriving DecidableEq

/-- The places at which the network thread calls `ModWritable`: in `Write`, and after it in `HandleConnection`. -/
inductive Caller where
  | write | handle
  deriving DecidableEq

/-- `ChatClient::Start`, with `RunLoop`, `HandleConnection`, `Read` and `Write` in it; `rest` are the events of the
batch after the one at hand. -/
inductive NetPc where
  | connect | setNonBlocking | storeRunning | createEpoll | addSock
  | loop | wait | next (rest : List UInt32)
  | handle (ev : UInt32) (rest : List UInt32) | read (ev : UInt32) (rest : List UInt32)
  | out (ev : UInt32) (rest : List UInt32)
  | writeLock (rest : List UInt32) | writeTest (rest : List UInt32) | writeSend (rest : List UInt32)
  | writeUnlock (res : Bool) (rest : List UInt32)
  | checkLock (rest : List UInt32) | checkTest (rest : List UInt32) | checkUnlock (rest : List UInt32)
  | mod (enable : Bool) (p : ModPc) (caller : Caller) (rest : List UInt32)
  | fail | stop (p : StopPc) | done
  deriving DecidableEq

/-- The loop over the lines in `main`, with `ChatClient::Send` in it. -/
inductive InputPc where
  | getline | sendLock (msg : List UInt8) | sendPush (msg : List UInt8) | sendUnlock | mod (p : ModPc)
  | stop (p : StopPc) | join | done
  deriving DecidableEq

/-! ## State -/

/-- `ChatClient`, with the positions of both threads. -/
structure Client where
  running : Bool
  /-- `m_socket != -1` -/
  socket : Bool
  /-- `m_epoll != -1` -/
  epoll : Bool
  /-- The mask with which `m_socket` is registered. -/
  registration : Option UInt32
  mutex : List Thread
  sendQueue : List (List UInt8)
  net : NetPc
  input : InputPc
  deriving DecidableEq

/-- The state in which `main` has started the network thread. -/
def Client.start : Client where
  running := false
  socket := false
  epoll := false
  registration := none
  mutex := []
  sendQueue := []
  net := .connect
  input := .getline

/-- The environment's part in a step. -/
inductive Input where
  | go | ok | failed
  | events (evs : List UInt32) | interrupted
  | recv (r : RecvResult) | send (r : SendResult)
  | line (msg : List UInt8) | quit | eof
  deriving DecidableEq

namespace Client

/-- The constructor of `std::lock_guard` -/
def lock (reentrant : Bool) (t : Thread) (s : Client) : Option Client :=
  if s.mutex = [] ∨ reentrant = true ∧ t ∈ s.mutex then some { s with mutex := t :: s.mutex } else none

/-- The destructor of `std::lock_guard` -/
def unlock (s : Client) : Client := { s with mutex := s.mutex.tail }

/-! ## Steps -/

/-- One step of `ModWritable(enable)`: the next position, or `none` after the return. -/
def modStep (reentrant : Bool) (t : Thread) (enable : Bool) (s : Client) : ModPc → Option (Client × Option ModPc)
  | .test => some (s, if s.epoll = false ∨ s.socket = false then none else some .lock)
  | .lock => (s.lock reentrant t).map fun s' => (s', some .read)
  | .read =>
    some (s, some (.unlock (if enable = true ∧ s.sendQueue ≠ [] then baseMask ||| epollOut else baseMask)))
  | .unlock event => some (s.unlock, some (.ctl event))
  | .ctl event => some ({ s with registration := s.registration.map fun _ => event }, none)

/-- One step of `Stop`: the next position, or `none` after the return. -/
def stopStep (s : Client) : StopPc → Client × Option StopPc
  | .store => ({ s with running := false }, some .test)
  | .test => (s, some (if s.socket = false then .closeEpoll else .shutdown))
  | .shutdown => (s, some .closeSocket)
  | .closeSocket => ({ s with socket := false, registration := none }, some .closeEpoll)
  | .closeEpoll => ({ s with epoll := false, registration := none }, none)

/-- `epoll_wait` may report the mask. -/
def Reports (s : Client) (ev : UInt32) : Prop :=
  match s.registration with
  | none => False
  | some mask => ev ≠ 0 ∧ ev &&& epollEt = 0 ∧ ev &&& ~~~(mask ||| epollErr ||| epollHup) = 0

instance (s : Client) : DecidablePred s.Reports := fun ev =>
  match h : s.registration with
  | none => isFalse (by simp [Reports, h])
  | some mask => decidable_of_iff (ev ≠ 0 ∧ ev &&& epollEt = 0 ∧ ev &&& ~~~(mask ||| epollErr ||| epollHup) = 0)
      (by simp [Reports, h])

/-- `epoll_wait` may report the masks. -/
def ReportsAll (s : Client) (evs : List UInt32) : Prop := ∀ ev ∈ evs, s.Reports ev

instance (s : Client) : DecidablePred s.ReportsAll := fun evs => List.decidableBAll s.Reports evs

/-- The position of the network thread in a `ModWritable`, or after its return. -/
def modPc (enable : Bool) (caller : Caller) (rest : List UInt32) : Option ModPc → NetPc
  | some p => .mod enable p caller rest
  | none =>
    match caller with
    | .write => .writeUnlock true rest
    | .handle => .checkUnlock rest

/-- One step of the network thread. -/
def netStep (reentrant : Bool) (s : Client) (x : Input) : Option Client :=
  match s.net, x with
  | .connect, .ok => some { s with socket := true, net := .setNonBlocking }
  | .connect, .failed => some { s with net := .stop .store }
  | .setNonBlocking, .ok => some { s with net := .storeRunning }
  | .setNonBlocking, .failed => some { s with net := .stop .store }
  | .storeRunning, .go => some { s with running := true, net := .createEpoll }
  | .createEpoll, .ok => some { s with epoll := true, net := .addSock }
  | .createEpoll, .failed => some { s with net := .addSock }
  | .addSock, .go =>
    some { s with registration := if s.epoll = true ∧ s.socket = true then some baseMask else none, net := .loop }
  -- RunLoop
  | .loop, .go => some { s with net := if s.running then .wait else .stop .store }
  | .wait, .events evs =>
    if evs ≠ [] ∧ evs.length ≤ maxEvents ∧ s.ReportsAll evs then some { s with net := .next evs } else none
  | .wait, .interrupted => some { s with net := .loop }
  | .wait, .failed => some { s with net := .stop .store }
  | .next [], .go => some { s with net := .loop }
  | .next (ev :: rest), .go => some { s with net := .handle ev rest }
  -- HandleConnection
  | .handle ev rest, .go =>
    let next : NetPc :=
      if ev &&& (epollErr ||| epollHup ||| epollRdHup) ≠ 0 then .fail
      else if ev &&& epollIn ≠ 0 then .read ev rest
      else .out ev rest
    some { s with net := next }
  | .read ev rest, .recv (.bytes b) =>
    if b ≠ [] ∧ b.length ≤ recvBuf then some { s with net := .read ev rest } else none
  | .read _ _, .recv .closed => some { s with net := .fail }
  | .read ev rest, .recv (.error e) => some { s with net := if e.again then .out ev rest else .fail }
  | .out ev rest, .go => some { s with net := if ev &&& epollOut ≠ 0 then .writeLock rest else .next rest }
  -- Write
  | .writeLock rest, .go => (s.lock reentrant .net).map fun s' => { s' with net := .writeTest rest }
  | .writeTest rest, .go => some { s with net := if s.sendQueue = [] then .writeUnlock true rest else .writeSend rest }
  | .writeSend rest, .send r =>
    match s.sendQueue, r with
    | [], _ => none
    | msg :: queue, .count n =>
      if n = 0 ∨ msg.length < n then none
      else if n < msg.length then
        some { s with sendQueue := msg.drop n :: queue, net := .mod true .test .write rest }
      else some { s with sendQueue := queue, net := .writeTest rest }
    | _ :: _, .closed => some { s with net := .writeUnlock false rest }
    | _ :: _, .error e => some { s with net := .writeUnlock e.again rest }
  | .writeUnlock res rest, .go => some { s.unlock with net := if res then .checkLock rest else .fail }
  -- back in HandleConnection
  | .checkLock rest, .go => (s.lock reentrant .net).map fun s' => { s' with net := .checkTest rest }
  | .checkTest rest, .go =>
    some { s with net := if s.sendQueue = [] then .mod false .test .handle rest else .checkUnlock rest }
  | .checkUnlock rest, .go => some { s.unlock with net := .next rest }
  | .mod enable p caller rest, .go =>
    (s.modStep reentrant .net enable p).map fun (s', p') => { s' with net := modPc enable caller rest p' }
  -- back in RunLoop and in Start
  | .fail, .go => some { s with running := false, net := .loop }
  | .stop p, .go =>
    some { (s.stopStep p).1 with net := (s.stopStep p).2.elim .done .stop }
  | _, _ => none

/-- One step of the input thread. -/
def inputStep (reentrant : Bool) (s : Client) (x : Input) : Option Client :=
  match s.input, x with
  | .getline, .line msg => some { s with input := if msg = [] then .getline else .sendLock msg }
  | .getline, .quit => some { s with input := .stop .store }
  | .getline, .eof => some { s with input := .join }
  -- Send
  | .sendLock msg, .go => (s.lock reentrant .input).map fun s' => { s' with input := .sendPush msg }
  | .sendPush msg, .go => some { s with sendQueue := s.sendQueue ++ [msg], input := .sendUnlock }
  | .sendUnlock, .go => some { s.unlock with input := .mod .test }
  | .mod p, .go =>
    (s.modStep reentrant .input true p).map fun (s', p') => { s' with input := p'.elim .getline .mod }
  | .stop p, .go =>
    some { (s.stopStep p).1 with input := (s.stopStep p).2.elim .join .stop }
  | .join, .go => if s.net = .done then some { s with input := .done } else none
  | _, _ => none

/-- One step of a thread. -/
def step (reentrant : Bool) (s : Client) : Thread × Input → Option Client
  | (.net, x) => s.netStep reentrant x
  | (.input, x) => s.inputStep reentrant x

end Client

/-- The `epoll` client, from the start of its network thread on. -/
def client (reentrant : Bool) : System Client (Thread × Input) where
  init s := s = .start
  step := Client.step reentrant

end TcpChat.EpollClient
