import Mathlib.Data.List.Basic
import Mathlib.Data.List.Infix

/-!
# Blocking `send` and `recv`

One side of a TCP connection as the framing code sees it.  A call of `send` or `recv` answers with a byte count,
with `0`, or with a negative count and an error code.  Which answer is given is decided by a *schedule*, one entry
a call; a count is cut down to what the call may answer, and a schedule that has ended answers every further call
in full.  A loop over `send` or `recv` makes finitely many calls, so every finite sequence of answers is the
behaviour under some schedule.
-/

namespace TcpChat.Framing

/-- `WSAGetLastError()`. -/
inductive WsaError where
  | WSAEINTR | WSAEWOULDBLOCK | other (code : ℕ)
  deriving DecidableEq

/-- `e == WSAEINTR || e == WSAEWOULDBLOCK` -/
def WsaError.again : WsaError → Bool
  | .WSAEINTR | .WSAEWOULDBLOCK => true
  | .other _ => false

/-- What a call of `recv` reports: `n > 0` with the bytes, `n == 0`, or `n < 0`. -/
inductive RecvResult where
  | bytes (b : List UInt8) | closed | error (e : WsaError)
  deriving DecidableEq

/-- What a call of `send` reports: `n > 0`, `n == 0`, or `n < 0`. -/
inductive SendResult where
  | count (n : ℕ) | closed | error (e : WsaError)
  deriving DecidableEq

/-! ## The receiving side -/

/-- Schedule entry of a `recv`: at most `k + 1` bytes, or an error. -/
inductive RecvOutcome where
  | chunk (k : ℕ) | error (e : WsaError)
  deriving DecidableEq

/-- The entry is not a hard error. -/
def RecvOutcome.Soft : RecvOutcome → Prop
  | .chunk _ => True
  | .error e => e.again = true

/-- The bytes of the stream that are not read yet, after which the peer has closed, and the schedule. -/
structure RxSock where
  unread : List UInt8
  sched : List RecvOutcome
  deriving DecidableEq

/-- Hands over the next `n` bytes, or fewer at the end of the stream. -/
def RxSock.deliver (s : RxSock) (n : ℕ) : RecvResult × RxSock :=
  if s.unread.take n = [] then (.closed, s) else (.bytes (s.unread.take n), { s with unread := s.unread.drop n })

/-- `recv(s, buf, len, 0)` -/
def RxSock.recv (s : RxSock) (len : ℕ) : RecvResult × RxSock :=
  match s.sched with
  | [] => s.deliver len
  | .chunk k :: rest => { s with sched := rest }.deliver (min (k + 1) len)
  | .error e :: rest => (.error e, { s with sched := rest })

/-- What one call of `recv` does to the socket. -/
theorem RxSock.recv_spec (s : RxSock) {len : ℕ} (hlen : 0 < len) :
    (s.recv len).2.sched ⊆ s.sched ∧
    match s.recv len with
    | (.bytes b, s') => b ≠ [] ∧ b.length ≤ len ∧ s.unread = b ++ s'.unread ∧ s'.sched.length ≤ s.sched.length
    | (.closed, s') => s.unread = [] ∧ s'.unread = []
    | (.error e, s') => .error e ∈ s.sched ∧ s'.unread = s.unread ∧ s'.sched.length < s.sched.length := by
  obtain ⟨unread, sched⟩ := s
  have hl : len ≠ 0 := by omega
  rcases sched with _ | ⟨k | e, rest⟩
  · by_cases hu : unread = []
    · simp [recv, deliver, hu]
    · have hle : min len unread.length ≤ len := by omega
      simp [recv, deliver, hu, hl, hle]
  · by_cases hu : unread = []
    · simp [recv, deliver, hu]
    · have hle : min (k + 1) (min len unread.length) ≤ len := by omega
      simp [recv, deliver, hu, hl, hle]
  · simp [recv]

/-! ## The sending side -/

/-- Schedule entry of a `send`: at most `k + 1` bytes, `0`, or an error. -/
inductive SendOutcome where
  | accept (k : ℕ) | closed | error (e : WsaError)
  deriving DecidableEq

/-- The bytes accepted for the peer so far and the schedule. -/
structure TxSock where
  wire : List UInt8
  sched : List SendOutcome
  deriving DecidableEq

/-- Takes the first `n` bytes of the data, or all of it if it is shorter. -/
def TxSock.take (s : TxSock) (data : List UInt8) (n : ℕ) : SendResult × TxSock :=
  if data.take n = [] then (.closed, s)
  else (.count (data.take n).length, { s with wire := s.wire ++ data.take n })

/-- `send(s, data, data.length, 0)` -/
def TxSock.send (s : TxSock) (data : List UInt8) : SendResult × TxSock :=
  match s.sched with
  | [] => s.take data data.length
  | .accept k :: rest => { s with sched := rest }.take data (k + 1)
  | .closed :: rest => (.closed, { s with sched := rest })
  | .error e :: rest => (.error e, { s with sched := rest })

/-- What one call of `send` does to the socket. -/
theorem TxSock.send_spec (s : TxSock) (data : List UInt8) :
    match s.send data with
    | (.count n, s') =>
      0 < n ∧ n ≤ data.length ∧ s'.wire = s.wire ++ data.take n ∧ s'.sched.length ≤ s.sched.length
    | (.closed, s') => s'.wire = s.wire
    | (.error _, s') => s'.wire = s.wire ∧ s'.sched.length < s.sched.length := by
  obtain ⟨wire, sched⟩ := s
  rcases sched with _ | ⟨k | _ | e, rest⟩
  · by_cases hd : data = []
    · simp [send, take, hd]
    · simp [send, take, hd, List.length_pos_iff]
  · by_cases hd : data = []
    · simp [send, take, hd]
    · have hpos : 0 < data.length := List.length_pos_iff.2 hd
      simp [send, take, hd, List.take_eq_take_min]
      omega
  · simp [send]
  · simp [send]

end TcpChat.Framing
