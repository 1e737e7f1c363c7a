import TcpChat.Lib.Handles
import TcpChat.Lib.Mutex
import TcpChat.Poll.Server

/-!
# The `poll` client

`ChatClient` of `NetworkBasics/poll/Client`, with the two threads of its `main`: the network thread runs `Start`, the
input thread reads lines, calls `Send` and `Stop`, and destroys the client after the `join`.

* A thread is a position in its function; a step of a thread is one access to the state it shares with the other
  thread: a load or store, a mutex operation, a statement under the mutex, a system call.
* The kernel's part of the state are the descriptors that have been handed out, the bytes that the server has sent and
  the bytes that it has been sent.
* `Stop` is called by both threads: its positions and steps are shared.
-/

namespace TcpChat.PollClient

open TcpChat.Lib TcpChat.EventLoop TcpChat.Poll

/-- The line `/quit` -/
def quit : List UInt8 := [47, 113, 117, 105, 116]

inductive Thread where
  | net | input
  deriving DecidableEq

/-! ## Positions -/

/-- `ChatClient::Stop`, with `SafeCloseSocket` at its end -/
inductive StopPc where
  | store | test | shutdown | closeTest | close | clear
  deriving DecidableEq

/-- `ChatClient::Start`, with `RunLoop`, `SetPollEvents`, `HandleConnection`, `Read` and `Write` in it; `revents` is what
`poll` has reported. -/
inductive NetPc where
  | connect | connectTest | setNonBlocking | storeRunning | createPoll
  | loop | eventsLock | eventsTest | eventsUnlock (isEmpty : Bool) | poll
  | handle (revents : UInt16) | read (revents : UInt16) | out (revents : UInt16)
  | writeLock | writeTest | writeSend | writeUnlock (res : Bool)
  | stop (p : StopPc) | done

/-- The loop over the lines in `main`, with `ChatClient::Send` in it, and the destructor of `ChatClient`. -/
inductive InputPc where
  | getline | sendLock (msg : List UInt8) | sendPush (msg : List UInt8) | sendUnlock
  | stop (p : StopPc) | join | destroy (p : StopPc) | done
  deriving DecidableEq

-- not for all positions: it would be tried on every value of `revents`
instance : DecidablePred (· = NetPc.done) := fun p => decidable_of_iff (p matches .done) (by cases p <;> simp)

instance : DecidablePred (· = NetPc.poll) := fun p => decidable_of_iff (p matches .poll) (by cases p <;> simp)

/-! ## State -/

/-- `ChatClient`, with the positions of both threads and the kernel's part of the state. -/
structure Client where
  running : Bool
  /-- `m_socket`, `none` for `-1`. -/
  socket : Option Fd
  /-- `m_poll.fd` and `m_poll.events` -/
  pollFd : Option Fd
  events : UInt16
  sendMutex : Option Thread
  sendQueue : List (List UInt8)
  net : NetPc
  input : InputPc
  /-- How often `close` has been called on each descriptor since it was handed out. -/
  closes : Closes Fd
  /-- The socket has not been shut down for sending. -/
  sendOpen : Bool
  /-- The bytes that the server sends, and those of them that have not been read. -/
  stream : List UInt8
  unread : List UInt8
  /-- The bytes that `send` has accepted. -/
  wire : List UInt8
  /-- What has been written to `cout` of the server's bytes. -/
  cout : List UInt8
  /-- History: the lines that `getline` has read, without `/quit`, and whether it has read `/quit`. -/
  lines : List (List UInt8)
  quitting : Bool

/-- The state in which `main` has started the network thread; the server will send `stream`. -/
def Client.start (stream : List UInt8) : Client where
  running := false
  socket := none
  pollFd := none
  events := 0
  sendMutex := none
  sendQueue := []
  net := .connect
  input := .getline
  closes := fun _ => none
  sendOpen := true
  stream := stream
  unread := stream
  wire := []
  cout := []
  lines := []
  quitting := false

/-- The environment's part in a step.  `getaddrinfo` fails or gives a list of addresses, each with the outcomes of
`socket` and `connect`. -/
inductive Input where
  | go | ok | failed
  | resolved (answer : Option (List (Closes.Attempt Fd)))
  | ready (revents : UInt16) | timeout | interrupted
  | count (n : ℕ) | closed | error (e : Errno)
  | line (line : List UInt8) | eof

/-- The message that `main` makes of a line; `Send` ignores the empty one. -/
def message (line : List UInt8) : List UInt8 := if line ≠ [] then line ++ [10] else line

namespace Client

/-- `m_socket` is a descriptor that has not been closed. -/
def Connected (c : Client) : Prop := ∃ fd ∈ c.socket, c.closes.IsOpen fd

instance (c : Client) : Decidable c.Connected :=
  decidable_of_iff (∃ fd, c.socket = some fd ∧ c.closes.IsOpen fd) (by simp [Connected])

/-- `recv(m_socket, buf, RECV_BUF, 0)`: what it may report, and the bytes that stay unread. -/
def recvCall (c : Client) : Input → Option (RecvResult × List UInt8)
  | .count n =>
    if c.Connected ∧ 0 < n ∧ n ≤ recvBuf ∧ n ≤ c.unread.length then some (.bytes (c.unread.take n), c.unread.drop n)
    else none
  | .closed => if c.Connected ∧ c.unread = [] then some (.closed, []) else none
  | .error e => some (.error e, c.unread)
  | _ => none

/-- `send(m_socket, msg.c_str(), msg.size(), MSG_NOSIGNAL)`: what it may report. -/
def sendCall (c : Client) (msg : List UInt8) : Input → Option SendResult
  | .count n => if c.Connected ∧ c.sendOpen = true ∧ 0 < n ∧ n ≤ msg.length then some (.count n) else none
  | .closed => if msg = [] then some .closed else none
  | .error e => some (.error e)
  | _ => none

/-- `poll` may report these events: of the ones asked for, or an error, and `POLLNVAL` for a closed descriptor. -/
def Reports (c : Client) (revents : UInt16) : Prop :=
  revents ≠ 0 ∧ c.pollFd ≠ none ∧ revents &&& ~~~(c.events ||| pollErr ||| pollHup ||| pollNval) = 0 ∧
    (revents &&& pollNval ≠ 0 ↔ ¬ ∃ fd ∈ c.pollFd, c.closes.IsOpen fd)

instance (c : Client) : DecidablePred c.Reports := fun _ =>
  have : Decidable (∃ fd ∈ c.pollFd, c.closes.IsOpen fd) :=
    decidable_of_iff (∃ fd, c.pollFd = some fd ∧ c.closes.IsOpen fd) (by simp)
  inferInstanceAs (Decidable (_ ∧ _ ∧ _ ∧ (_ ↔ _)))

/-! ## Steps -/

/-- One step of `Stop`: the next position, or `none` after the return. -/
def stopStep (c : Client) : StopPc → Client × Option StopPc
  | .store => ({ c with running := false }, some .test)
  | .test => (c, if c.socket = none then none else some .shutdown)
  | .shutdown => ({ c with sendOpen := if c.socket = none then c.sendOpen else false }, some .closeTest)
  | .closeTest => (c, if c.socket = none then none else some .close)
  | .close => ({ c with closes := c.socket.elim c.closes c.closes.close }, some .clear)
  | .clear => ({ c with socket := none }, none)

/-- One step of the network thread. -/
def netStep (c : Client) (x : Input) : Option Client :=
  match c.net, x with
  -- CreateConnection
  | .connect, .resolved none => some { c with net := .stop .store }
  | .connect, .resolved (some result) =>
    match c.closes.firstServing result with
    | none => none
    | some (none, closes) => some { c with closes := closes, net := .connectTest }
    | some (some sfd, closes) => some { c with closes := closes, socket := some sfd, net := .connectTest }
  | .connectTest, .go => some { c with net := if c.socket = none then .stop .store else .setNonBlocking }
  -- back in Start
  | .setNonBlocking, .ok => if c.Connected then some { c with net := .storeRunning } else none
  | .setNonBlocking, .failed => some { c with net := .stop .store }
  | .storeRunning, .go => some { c with running := true, net := .createPoll }
  | .createPoll, .go => some { c with pollFd := c.socket, events := pollIn, net := .loop }
  -- RunLoop
  | .loop, .go => some { c with net := if c.running then .eventsLock else .stop .store }
  | .eventsLock, .go => if c.sendMutex = none then some { c with sendMutex := some .net, net := .eventsTest } else none
  | .eventsTest, .go => some { c with net := .eventsUnlock c.sendQueue.isEmpty }
  | .eventsUnlock isEmpty, .go =>
    some { c with
      sendMutex := none, events := if isEmpty then c.events &&& ~~~pollOut else c.events ||| pollOut, net := .poll }
  | .poll, .failed => some { c with net := .stop .store }
  | .poll, .interrupted | .poll, .timeout => some { c with net := .loop }
  | .poll, .ready revents => if c.Reports revents then some { c with net := .handle revents } else none
  -- HandleConnection
  | .handle revents, .go =>
    some { c with
      net :=
        if revents &&& (pollErr ||| pollHup ||| pollNval) ≠ 0 then .stop .store
        else if revents &&& pollIn ≠ 0 then .read revents
        else .out revents }
  | .read revents, x =>
    match c.recvCall x with
    | none => none
    | some (.bytes b, unread) => some { c with unread := unread, cout := c.cout ++ b }
    | some (.closed, _) => some { c with net := .stop .store }
    | some (.error e, _) => some { c with net := if e.again then .out revents else .stop .store }
  | .out revents, .go => some { c with net := if revents &&& pollOut ≠ 0 then .writeLock else .loop }
  -- Write
  | .writeLock, .go => if c.sendMutex = none then some { c with sendMutex := some .net, net := .writeTest } else none
  | .writeTest, .go => some { c with net := if c.sendQueue = [] then .writeUnlock true else .writeSend }
  | .writeSend, x =>
    match c.sendQueue with
    | [] => none
    | msg :: queue =>
      match c.sendCall msg x with
      | none => none
      | some (.count n) =>
        if n < msg.length then
          some { c with wire := c.wire ++ msg.take n, sendQueue := msg.drop n :: queue, net := .writeUnlock true }
        else some { c with wire := c.wire ++ msg.take n, sendQueue := queue, net := .writeTest }
      | some .closed => some { c with net := .writeUnlock false }
      | some (.error e) => some { c with net := .writeUnlock e.again }
  | .writeUnlock res, .go => some { c with sendMutex := none, net := if res then .loop else .stop .store }
  | .stop p, .go => some { (c.stopStep p).1 with net := (c.stopStep p).2.elim .done .stop }
  | _, _ => none

/-- One step of the input thread. -/
def inputStep (c : Client) (x : Input) : Option Client :=
  match c.input, x with
  | .getline, .line line =>
    if line = quit then some { c with quitting := true, input := .stop .store }
    else
      some { c with
        lines := c.lines ++ [line], input := if message line = [] then .getline else .sendLock (message line) }
  | .getline, .eof => some { c with input := .join }
  -- Send
  | .sendLock msg, .go =>
    if c.sendMutex = none then some { c with sendMutex := some .input, input := .sendPush msg } else none
  | .sendPush msg, .go => some { c with sendQueue := c.sendQueue ++ [msg], input := .sendUnlock }
  | .sendUnlock, .go => some { c with sendMutex := none, input := .getline }
  | .stop p, .go => some { (c.stopStep p).1 with input := (c.stopStep p).2.elim .join .stop }
  | .join, .go => if c.net = .done then some { c with input := .destroy .store } else none
  | .destroy p, .go => some { (c.stopStep p).1 with input := (c.stopStep p).2.elim .done .destroy }
  | _, _ => none

/-- One step of a thread. -/
def step (c : Client) : Thread × Input → Option Client
  | (.net, x) => c.netStep x
  | (.input, x) => c.inputStep x

end Client

/-- The `poll` client, from the start of its network thread on. -/
def client : System Client (Thread × Input) where
  init c := ∃ stream, c = .start stream
  step := Client.step

namespace Client

variable {c c' : Client} {x : Input}

/-! ## What a step leaves alone -/

/-- `Stop` changes `m_running` and the socket. -/
theorem stopStep_eq (c : Client) (p : StopPc) : ∃ running socket closes sendOpen, (c.stopStep p).1 =
    { c with running := running, socket := socket, closes := closes, sendOpen := sendOpen } := by
  cases p <;> exact ⟨_, _, _, _, rfl⟩

/-- The input thread does not empty the queue, and leaves the network thread and what it polls alone. -/
theorem inputStep_frame (h : c.inputStep x = some c') :
    c'.net = c.net ∧ c'.events = c.events ∧ c'.pollFd = c.pollFd ∧ c'.unread = c.unread ∧
      (c.sendQueue ≠ [] → c'.sendQueue ≠ []) := by
  cases hp : c.input with
  | stop p | destroy p =>
    cases x <;> simp only [inputStep, hp, Option.some.injEq, reduceCtorEq] at h
    obtain ⟨running, socket, closes, sendOpen, he⟩ := c.stopStep_eq p
    rw [he] at h
    subst h
    exact ⟨rfl, rfl, rfl, rfl, id⟩
  | _ =>
    cases x <;> simp only [inputStep, hp, Option.some.injEq, Option.ite_none_right_eq_some, reduceCtorEq] at h
    all_goals repeat' split at h
    all_goals first
      | subst h
      | obtain ⟨-, rfl⟩ := h
    all_goals exact ⟨rfl, rfl, rfl, rfl, by simp⟩

end Client

end TcpChat.PollClient
