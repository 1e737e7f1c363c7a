import TcpChat.Framing.Codec
import TcpChat.Lib.System

/-!
# The `select` client

`ChatClient` of `NetworkBasics/select/Client`: `RunEventLoop` on its connected, non-blocking socket, and the calls of
`EnqueueSend` by the input thread, each taken as atomic.  A step is a call of `EnqueueSend`, or what a system call
answers and the code of the loop up to the next call.

`lines`, `accepted`, `received`, `ended` and `broken` are histories.

* `Moves` — what a step of the loop can do; `loopStep_moves` — and it does nothing else.
-/

namespace TcpChat.SelectClient

open TcpChat.Lib TcpChat.Framing

/-- `RECV_BUF` -/
def recvBuf : ℕ := 4096

def maxReadsPerTick : ℕ := 20

/-! ## State -/

/-- `Pending` -/
structure Pending where
  data : List UInt8
  ofs : ℕ
  deriving DecidableEq

/-- What `ReceiveMsg` writes to `cout`: the bytes of a message, or that the server closed the connection. -/
inductive Printed where
  | msg (b : List UInt8) | serverClosed
  deriving DecidableEq

/-- `ChatClient` -/
structure Client where
  isActive : Bool
  /-- `m_socket != INVALID_SOCKET` -/
  socket : Bool
  sendQ : List Pending
  cout : List Printed
  /-- History: the lines given to `EnqueueSend`, the bytes that `send` accepted and those that `recv` delivered. -/
  lines : List (List UInt8)
  accepted : List UInt8
  received : List UInt8
  /-- History: `recv` has reported the end of the connection, or `recv` or `send` a hard error. -/
  ended : Bool
  /-- History: `select` has reported a hard error. -/
  broken : Bool
  deriving DecidableEq

/-- Where `RunEventLoop` is. -/
inductive Position where
  /-- At the top of the loop. -/
  | top
  /-- In `select`, with or without the socket in the two sets. -/
  | wait (rset wset : Bool)
  /-- In `ReceiveMsg`, before `recv`, after `reads` rounds of its loop; the socket is ready for writing, or not. -/
  | receiving (writable : Bool) (reads : ℕ)
  /-- In `SendMsg`, before `send`. -/
  | sending
  /-- The loop has ended. -/
  | left
  deriving DecidableEq

structure State where
  position : Position
  client : Client
  deriving DecidableEq

/-- `CreateConnection` has succeeded. -/
def Client.start : Client where
  isActive := true
  socket := true
  sendQ := []
  cout := []
  lines := []
  accepted := []
  received := []
  ended := false
  broken := false

inductive Input where
  | enqueue (line : List UInt8)
  /-- The calls of an iteration: `BuildFdSets`, the outcomes of `select`, `recv` and `send`. -/
  | build
  | timeout | failed (e : WsaError) | ready (r w : Bool)
  | recv (r : RecvResult) | send (r : SendResult)
  deriving DecidableEq

/-! ## Steps -/

/-- `ChatClient::EnqueueSend` -/
def enqueueSend (c : Client) (line : List UInt8) : Client :=
  let data := if line = [] ∨ line.getLast? ≠ some 10 then line ++ [10] else line
  { c with sendQ := c.sendQ ++ [⟨data, 0⟩], lines := c.lines ++ [line] }

/-- The length that `SendMsg` offers to `send`. -/
def remaining (front : Pending) : ℤ := toInt (front.data.length - front.ofs)

/-- `HandleReadyWriters` has returned `SendMsg() != -1`. -/
def afterSend (c : Client) (status : ℤ) : State := if status ≠ -1 then ⟨.top, c⟩ else ⟨.left, c⟩

/-- `HandleReadyWriters`, with the beginning of `SendMsg` in it. -/
def handleReadyWriters (c : Client) (writable : Bool) : State :=
  if writable = false then ⟨.top, c⟩
  else if c.socket = false then afterSend c (-1)
  else if c.sendQ = [] then afterSend c 1
  else ⟨.sending, c⟩

/-- `HandleReadyReceivers` has returned `ReceiveMsg() != -1`. -/
def afterReceive (c : Client) (writable : Bool) (status : ℤ) : State :=
  if status ≠ -1 then handleReadyWriters c writable else ⟨.left, c⟩

/-- One round of the loop of `ReceiveMsg`. -/
def receiveMsg (c : Client) (writable : Bool) (reads : ℕ) : RecvResult → Option State
  | .closed => some (afterReceive { c with cout := c.cout ++ [.serverClosed], ended := true } writable 0)
  | .error e =>
    if e.again then some (afterReceive c writable 1)
    else some (afterReceive { c with ended := true } writable (-1))
  | .bytes b =>
    if b ≠ [] ∧ b.length ≤ recvBuf then
      let c := { c with cout := c.cout ++ [.msg b], received := c.received ++ b }
      if reads + 1 < maxReadsPerTick then some ⟨.receiving writable (reads + 1), c⟩
      else some (afterReceive c writable 1)
    else none

/-- `SendMsg`, after `send`. -/
def sendMsg (c : Client) : SendResult → Option State
  | .count n =>
    match c.sendQ with
    | [] => none
    | front :: rest =>
      if 0 < n ∧ (n : ℤ) ≤ remaining front then
        let c := { c with accepted := c.accepted ++ (front.data.drop front.ofs).take n }
        if front.ofs + n = front.data.length then some (afterSend { c with sendQ := rest } 1)
        else some (afterSend { c with sendQ := { front with ofs := front.ofs + n } :: rest } 1)
      else none
  | .closed => some (afterSend c 1)
  | .error e => if e.again then some (afterSend c 1) else some (afterSend { c with ended := true } (-1))

/-- `RunEventLoop`, after `select`. -/
def selected (c : Client) (rset wset : Bool) (x : Input) : Option State :=
  if c.isActive = false then some ⟨.left, c⟩
  else
    match x with
    | .timeout => some ⟨.top, c⟩
    | .failed e => if e.again then some ⟨.top, c⟩ else some ⟨.left, { c with broken := true }⟩
    | .ready r w =>
      if (r ∨ w) ∧ (r → rset) ∧ (w → wset) then
        some (if r then ⟨.receiving w 0, c⟩ else handleReadyWriters c w)
      else none
    | _ => none

/-- An answer in `RunEventLoop`. -/
def loopStep (c : Client) : Position → Input → Option State
  | .top, .build =>
    some (if c.isActive = false then ⟨.left, c⟩ else ⟨.wait c.socket (c.socket && !c.sendQ.isEmpty), c⟩)
  | .wait rset wset, x => selected c rset wset x
  | .receiving writable reads, .recv r => receiveMsg c writable reads r
  | .sending, .send r => sendMsg c r
  | _, _ => none

def step (s : State) : Input → Option State
  | .enqueue line => some ⟨s.position, enqueueSend s.client line⟩
  | x => loopStep s.client s.position x

/-- The `select` client, from the start of `RunEventLoop` on. -/
def client : System State Input where
  init s := s = ⟨.top, .start⟩
  step := step

/-! ## What a step of the loop does -/

/-- `send` reports a hard error. -/
def Hard : SendResult → Prop
  | .error e => e.again = false
  | _ => False

instance : DecidablePred Hard
  | .error _ => inferInstanceAs (Decidable (_ = _))
  | .count _ | .closed => isFalse id

/-- The client is connected and `Stop` has not been called. -/
structure Running (c : Client) : Prop where
  isActive : c.isActive = true
  socket : c.socket = true

/-- The steps of `RunEventLoop`, for a client that runs. -/
inductive Moves (c : Client) : Position → Input → State → Prop
  /-- Nothing is received, sent or lost. -/
  | goesOn {p q : Position} {x : Input} (hp : p ≠ .sending) (hx : x ≠ .recv .closed) (hq : q ≠ .left)
      (hsend : q = .sending → c.sendQ ≠ []) : Moves c p x ⟨q, c⟩
  | prints {w : Bool} {reads : ℕ} {q : Position} {b : List UInt8} (hq : q ≠ .left)
      (hsend : q = .sending → c.sendQ ≠ []) : Moves c (.receiving w reads) (.recv (.bytes b))
        ⟨q, { c with cout := c.cout ++ [.msg b], received := c.received ++ b }⟩
  | closed {w : Bool} {reads : ℕ} : Moves c (.receiving w reads) (.recv .closed)
      ⟨if w = true ∧ c.sendQ ≠ [] then .sending else .top,
        { c with cout := c.cout ++ [.serverClosed], ended := true }⟩
  /-- `send` accepts `n` bytes of the first item. -/
  | sends {front : Pending} {rest : List Pending} {n : ℕ} (hq : c.sendQ = front :: rest) (hn : 0 < n)
      (hle : (n : ℤ) ≤ remaining front) : Moves c .sending (.send (.count n))
        ⟨.top, { c with accepted := c.accepted ++ (front.data.drop front.ofs).take n,
                        sendQ := if front.ofs + n = front.data.length then rest
                          else { front with ofs := front.ofs + n } :: rest }⟩
  | sendsNothing {r : SendResult} (hr : ¬ Hard r) : Moves c .sending (.send r) ⟨.top, c⟩
  /-- Hard errors end the loop. -/
  | recvFails {w : Bool} {reads : ℕ} {e : WsaError} (he : e.again = false) :
      Moves c (.receiving w reads) (.recv (.error e)) ⟨.left, { c with ended := true }⟩
  | sendFails {r : SendResult} (hr : Hard r) : Moves c .sending (.send r) ⟨.left, { c with ended := true }⟩
  | selectFails {rset wset : Bool} {e : WsaError} (he : e.again = false) :
      Moves c (.wait rset wset) (.failed e) ⟨.left, { c with broken := true }⟩

variable {c : Client} {p : Position} {s s' : State} {x : Input} {w : Bool}

/-- `HandleReadyWriters` comes to `send` or to the end of the iteration. -/
theorem handleReadyWriters_eq (h : c.socket = true) :
    handleReadyWriters c w = ⟨if w = true ∧ c.sendQ ≠ [] then .sending else .top, c⟩ := by
  unfold handleReadyWriters afterSend
  cases w
  · simp
  · by_cases hq : c.sendQ = [] <;> simp [h, hq]

/-- Every status but `-1` lets the iteration go on. -/
theorem afterReceive_eq {status : ℤ} (h : status ≠ -1) : afterReceive c w status = handleReadyWriters c w := if_pos h

/-- The position to which `HandleReadyWriters` comes. -/
theorem writers_position {q : Position} (hq : q = if w = true ∧ c.sendQ ≠ [] then .sending else .top) :
    q ≠ .left ∧ (q = .sending → c.sendQ ≠ []) := by
  subst hq
  split
  next h => exact ⟨by simp, fun _ => h.2⟩
  next => exact ⟨by simp, by simp⟩

theorem receiveMsg_moves {reads : ℕ} {r : RecvResult} (h : Running c) (hst : receiveMsg c w reads r = some s') :
    Moves c (.receiving w reads) (.recv r) s' := by
  obtain ⟨hq, hsend⟩ := writers_position (c := c) (w := w) rfl
  cases r with
  | bytes b =>
    simp only [receiveMsg, Option.ite_none_right_eq_some] at hst
    obtain ⟨-, hst⟩ := hst
    split at hst
    · cases hst
      exact .prints (by simp) (by simp)
    · cases hst
      rw [afterReceive_eq (by decide), handleReadyWriters_eq (by exact h.socket)]
      exact .prints hq hsend
  | closed =>
    cases hst
    rw [afterReceive_eq (by decide), handleReadyWriters_eq (by exact h.socket)]
    exact .closed
  | error e =>
    simp only [receiveMsg] at hst
    split at hst
    · cases hst
      rw [afterReceive_eq (by decide), handleReadyWriters_eq h.socket]
      exact .goesOn (by simp) (by simp) hq hsend
    next he =>
      cases hst
      exact .recvFails (by simpa using he)

theorem sendMsg_moves {r : SendResult} (hst : sendMsg c r = some s') : Moves c .sending (.send r) s' := by
  cases r with
  | count n =>
    simp only [sendMsg] at hst
    split at hst
    · cases hst
    next front rest hq =>
      simp only [Option.ite_none_right_eq_some] at hst
      obtain ⟨⟨hn, hle⟩, hst⟩ := hst
      have hmove := Moves.sends hq hn hle
      split at hst
      next hdone =>
        cases hst
        rwa [if_pos hdone] at hmove
      next hdone =>
        cases hst
        rwa [if_neg hdone] at hmove
  | closed =>
    cases hst
    exact .sendsNothing id
  | error e =>
    simp only [sendMsg] at hst
    split at hst
    next he =>
      cases hst
      exact .sendsNothing (by simp [Hard, he])
    next he =>
      cases hst
      exact .sendFails (by simpa [Hard] using he)

theorem selected_moves {rset wset : Bool} (h : Running c) (hst : selected c rset wset x = some s') :
    Moves c (.wait rset wset) x s' := by
  unfold selected at hst
  rw [if_neg (by simp [h.isActive])] at hst
  cases x <;> simp only [Option.some.injEq, Option.ite_none_right_eq_some, reduceCtorEq] at hst
  case timeout =>
    subst hst
    exact .goesOn (by simp) (by simp) (by simp) (by simp)
  case failed e =>
    split at hst
    · cases hst
      exact .goesOn (by simp) (by simp) (by simp) (by simp)
    next he =>
      cases hst
      exact .selectFails (by simpa using he)
  case ready r w =>
    obtain ⟨-, rfl⟩ := hst
    split
    · exact .goesOn (by simp) (by simp) (by simp) (by simp)
    · obtain ⟨hq, hsend⟩ := writers_position (c := c) (w := w) rfl
      rw [handleReadyWriters_eq h.socket]
      exact .goesOn (by simp) (by simp) hq hsend

theorem loopStep_moves (h : Running c) (hst : loopStep c p x = some s') : Moves c p x s' := by
  cases p with
  | top =>
    cases x <;> simp only [loopStep, Option.some.injEq, reduceCtorEq] at hst
    rw [if_neg (by simp [h.isActive])] at hst
    subst hst
    exact .goesOn (by simp) (by simp) (by simp) (by simp)
  | wait rset wset => exact selected_moves h hst
  | receiving writable reads =>
    cases x <;> simp only [loopStep, reduceCtorEq] at hst
    exact receiveMsg_moves h hst
  | sending =>
    cases x <;> simp only [loopStep, reduceCtorEq] at hst
    exact sendMsg_moves hst
  | left => cases hst

theorem Moves.running (hm : Moves c p x s') (h : Running c) : Running s'.client := by
  cases hm <;> exact ⟨h.isActive, h.socket⟩

/-- A client that runs goes on running, for nothing else changes `m_isActive` and `m_socket`. -/
theorem step_running (h : Running s.client) (hst : step s x = some s') : Running s'.client := by
  cases x with
  | enqueue line =>
    cases hst
    exact ⟨h.isActive, h.socket⟩
  | _ => exact (loopStep_moves h hst).running h

end TcpChat.SelectClient
