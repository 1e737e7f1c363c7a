import TcpChat.Lib.System

/-!
# The blocking client

The threads of `NetworkBasics/blocking-multithreaded/Client`, from the point on at which `ChatClient::Run` has a socket: the
main thread, which is in `Run`, `SendMessages` and `Disconnect`, and the thread in `ReceiveMessages`.

The conventions are those of the blocking server.  How `Run` gets its socket is the same code as in the framing client
(`FramingClient.Connect`).
-/

namespace TcpChat.BlockingClient

open TcpChat.Lib

/-- `RECV_BUF` -/
def recvBuf : ℕ := 4096

/-- What `ReceiveMessages` asks for: `sizeof(buf) - 1`. -/
def recvWants : ℕ := 1024 - 1

inductive Thread where
  | main | recv
  deriving DecidableEq

/-! ## Positions -/

/-- `ChatClient::Run` after the connection, with `SendMessages` and `Disconnect` in it; `left` are the bytes of the line
that are still to be sent. -/
inductive MainPc where
  | store | spawn | getline | test (msg : List UInt8) | send (left : List UInt8)
  | stop | shutdown | drain | close | join | done
  deriving DecidableEq

/-- `ChatClient::ReceiveMessages`; `off` until the thread is created. -/
inductive RecvPc where
  | off | test | recv | print (msg : List UInt8) | notice | store | done
  deriving DecidableEq

/-! ## State -/

/-- What a line on the screen shows: a received message, or that the server has disconnected. -/
inductive Line where
  | msg (body : List UInt8) | disconnected
  deriving DecidableEq

def Line.body? : Line → Option (List UInt8)
  | .msg body => some body
  | .disconnected => none

/-- `ChatClient`, with the positions of its threads, on a connection that will deliver `stream`. -/
structure Client where
  active : Bool
  /-- `m_socket != INVALID_SOCKET` -/
  valid : Bool
  /-- `shutdown(m_socket, SD_SEND)` has been called. -/
  halfClosed : Bool
  stream : List UInt8
  unread : List UInt8
  wire : List UInt8
  cout : List Line
  main : MainPc
  recv : RecvPc
  /-- History: the lines that `getline` has read, and for those of them that `SendMessages` has begun to send, what
  `send` has accepted. -/
  typed : List (List UInt8)
  sent : List (List UInt8)
  /-- History: the results of `recv`, with the thread that got them. -/
  taken : List (Thread × List UInt8)

/-- The state in which `Run` leaves its loop over the addresses with a connected socket. -/
def Client.start (stream : List UInt8) : Client where
  active := false
  valid := true
  halfClosed := false
  stream := stream
  unread := stream
  wire := []
  cout := []
  main := .store
  recv := .off
  typed := []
  sent := []
  taken := []

/-- The environment's part in a step; `failed` is a result of at most `0` of `recv` or `send`. -/
inductive Input where
  | go | line (msg : List UInt8) | eof | count (n : ℕ) | failed
  deriving DecidableEq

namespace Client

/-- `recv(m_socket, buf, wants, 0)`: the bytes received, `none` for a result of at most `0`. -/
def recvCall (c : Client) (wants : ℕ) : Input → Option (Option (List UInt8))
  | .count n =>
    if c.valid = true ∧ 0 < n ∧ n ≤ wants ∧ n ≤ c.unread.length then some (some (c.unread.take n)) else none
  | .failed => some none
  | _ => none

/-- The bytes `msg` have been received by the thread `t`. -/
def take (c : Client) (t : Thread) (msg : List UInt8) : Client :=
  { c with unread := c.unread.drop msg.length, taken := c.taken ++ [(t, msg)] }

/-- `send` has accepted the bytes `out` of the line at hand. -/
def accept (c : Client) (out : List UInt8) : Client :=
  { c with wire := c.wire ++ out, sent := c.sent.dropLast ++ [(c.sent.getLast?.getD []) ++ out] }

/-! ## Steps -/

/-- One step of the main thread. -/
def mainStep (c : Client) (x : Input) : Option Client :=
  match c.main, x with
  | .store, .go => some { c with active := true, main := .spawn }
  | .spawn, .go => some { c with recv := .test, main := .getline }
  -- SendMessages
  | .getline, .line msg => some { c with typed := c.typed ++ [msg], main := .test msg }
  | .getline, .eof => some { c with main := .stop }
  | .test msg, .go =>
    if c.active then some { c with sent := c.sent ++ [[]], main := .send msg } else some { c with main := .stop }
  | .send [], .go => some { c with main := .getline }
  | .send (b :: left), .count n =>
    if c.valid = true ∧ 0 < n ∧ n ≤ (b :: left).length then
      some { c.accept ((b :: left).take n) with main := .send ((b :: left).drop n) }
    else none
  | .send (_ :: _), .failed => some { c with main := .getline }
  -- Disconnect
  | .stop, .go => some { c with active := false, main := .shutdown }
  | .shutdown, .go =>
    if c.valid then some { c with halfClosed := true, main := .drain } else some { c with main := .join }
  | .drain, x =>
    match c.recvCall recvBuf x with
    | none => none
    | some none => some { c with main := .close }
    | some (some msg) => some (c.take .main msg)
  | .close, .go => some { c with valid := false, main := .join }
  -- back in Run
  | .join, .go => if c.recv = .done then some { c with main := .done } else none
  | _, _ => none

/-- One step of the thread in `ReceiveMessages`. -/
def recvStep (c : Client) (x : Input) : Option Client :=
  match c.recv, x with
  | .test, .go => some { c with recv := if c.active then .recv else .done }
  | .recv, x =>
    match c.recvCall recvWants x with
    | none => none
    | some none => some { c with recv := .notice }
    | some (some msg) => some { c.take .recv msg with recv := .print msg }
  | .print msg, .go => some { c with cout := c.cout ++ [.msg msg], recv := .test }
  | .notice, .go => some { c with cout := c.cout ++ [.disconnected], recv := .store }
  | .store, .go => some { c with active := false, recv := .done }
  | _, _ => none

/-- One step of a thread. -/
def step (c : Client) : Thread × Input → Option Client
  | (.main, x) => c.mainStep x
  | (.recv, x) => c.recvStep x

/-- The received messages on the screen. -/
def printed (c : Client) : List (List UInt8) := c.cout.filterMap Line.body?

end Client

/-- The blocking client, from its connection on. -/
def client : System Client (Thread × Input) where
  init c := ∃ stream, c = .start stream
  step := Client.step

end TcpChat.BlockingClient
