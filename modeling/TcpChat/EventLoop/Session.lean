import TcpChat.Lib.Prog
import TcpChat.Lib.Table
import Mathlib.Logic.Function.Basic

/-!
# Client sessions of the event-loop servers

`ClientSession` of the `poll` and the `epoll` server, the state of their `ChatServer`, and the system calls that
both make.  The two copies of `ClientSession` differ in the flags of `send` only, and call the `BroadcastMsg` of
their own server: these are the parameters of `write` and `read`.

* A session has a number, for the address of the object; `read` and `BroadcastMsg` compare these.
* The kernel is seen through the answers of the calls, through the descriptors it has handed out, and through the
  interest list of `epoll`.  An answer that the kernel cannot give is treated like none.
* `sent`, `since` and `log` are histories, which only the statements about the servers read.
-/

namespace TcpChat.EventLoop

open TcpChat.Lib

/-! ## System calls -/

/-- A file descriptor. -/
abbrev Fd := ℕ

inductive Errno where
  | EAGAIN | EWOULDBLOCK | EPIPE | other (code : ℕ)
  deriving DecidableEq

/-- `errno == EAGAIN || errno == EWOULDBLOCK` -/
def Errno.again : Errno → Bool
  | .EAGAIN | .EWOULDBLOCK => true
  | _ => false

/-- `RECV_BUF` -/
def recvBuf : ℕ := 4096

/-- `MSG_NOSIGNAL` -/
def msgNoSignal : UInt32 := 0x4000

def epollIn : UInt32 := 0x001
def epollOut : UInt32 := 0x004
def epollErr : UInt32 := 0x008
def epollHup : UInt32 := 0x010
def epollRdHup : UInt32 := 0x2000
def epollOneShot : UInt32 := 0x40000000
def epollEt : UInt32 := 0x80000000

/-- What `recv` reports: `bytes > 0` with the data, `bytes == 0`, or `bytes < 0`. -/
inductive RecvResult where
  | bytes (b : List UInt8) | closed | error (e : Errno)
  deriving DecidableEq

/-- What `send` reports: `bytes > 0`, `bytes == 0`, or `bytes < 0`. -/
inductive SendResult where
  | count (n : ℕ) | closed | error (e : Errno)
  deriving DecidableEq

/-- The answer of a call. -/
inductive Answer where
  | recv (r : RecvResult) | send (r : SendResult) | accepted (cs : Fd) | refused (e : Errno)
  deriving DecidableEq

/-- The answer reports that the connection is lost. -/
def Answer.Lost : Answer → Prop
  | .recv (.error e) | .send (.error e) => e.again = false
  | .send .closed => True
  | _ => False

instance : DecidablePred Answer.Lost
  | .recv (.error _) | .send (.error _) => inferInstanceAs (Decidable (_ = _))
  | .send .closed => isTrue trivial
  | .recv (.bytes _) | .recv .closed | .send (.count _) | .accepted _ | .refused _ => isFalse id

/-! ## State -/

/-- `ClientSession` -/
structure ClientSession where
  id : ℕ
  /-- `m_socket`, `none` for `-1`. -/
  socket : Option Fd
  sendQueue : List (List UInt8)
  /-- History: how many broadcasts there had been when the session was made. -/
  since : ℕ
  /-- History: the bytes that `send` accepted in `Write`. -/
  sent : List UInt8

/-- History of a broadcast: the sender and the message. -/
structure Broadcast where
  sender : ℕ
  msg : List UInt8
  deriving DecidableEq

/-- What the others than the session `id` have broadcast since the log had `since` entries. -/
def castSince (log : List Broadcast) (since id : ℕ) : List UInt8 :=
  ((log.drop since).filter fun m => m.sender ≠ id).flatMap (·.msg)

theorem castSince_length (log : List Broadcast) (id : ℕ) : castSince log log.length id = [] := by simp [castSince]

/-- A broadcast adds its message, unless the session is the sender. -/
theorem castSince_concat {log : List Broadcast} {since id : ℕ} (h : since ≤ log.length) (msg : List UInt8) (sender : ℕ) :
    castSince (log ++ [⟨sender, msg⟩]) since id = castSince log since id ++ if id ≠ sender then msg else [] := by
  rw [castSince, castSince, List.drop_append_of_le_length h, List.filter_append, List.flatMap_append]
  by_cases hs : id = sender
  · simp [hs]
  · simp [hs, Ne.symm hs]

/-- An entry of the interest list of `epoll`. -/
structure Registration where
  events : UInt32
  /-- A one-shot entry is disarmed when it is reported. -/
  armed : Bool
  deriving DecidableEq

/-- `ChatServer`, with the kernel's part of the state. -/
structure Server where
  running : Bool
  listenSockets : List Fd
  clients : Table Fd ClientSession
  /-- How often `close` has been called on a descriptor since it was handed out; `none` if it never was. -/
  closes : Fd → Option ℕ
  interest : Fd → Option Registration
  /-- The number of sessions made so far. -/
  count : ℕ
  log : List Broadcast

/-- The state at the start of `RunLoop`. -/
def Server.start (listenSockets : List Fd) (interest : Fd → Option Registration) : Server where
  running := true
  listenSockets := listenSockets
  clients := ∅
  closes := fun fd => if fd ∈ listenSockets then some 0 else none
  interest := interest
  count := 0
  log := []

namespace Server

/-- The kernel has handed out the descriptor and it has not been closed. -/
def IsOpen (s : Server) (fd : Fd) : Prop := s.closes fd = some 0

instance (s : Server) : DecidablePred s.IsOpen := fun _ => inferInstanceAs (Decidable (_ = _))

/-- `close(fd)`: the descriptor leaves the interest list, too. -/
def close (s : Server) (fd : Fd) : Server :=
  { s with closes := Function.update s.closes fd ((s.closes fd).map (· + 1)),
           interest := Function.update s.interest fd none }

/-- Changes the session of the descriptor `fd` in `m_clients`. -/
def modify (s : Server) (fd : Fd) (f : ClientSession → ClientSession) : Server :=
  { s with clients := s.clients.modify fd f }

/-- `m_clients.erase` -/
def erase (s : Server) (fd : Fd) : Server := { s with clients := s.clients.erase fd }

/-- The kernel hands out `cs`, and `m_clients.emplace(cs, std::make_unique<ClientSession>(cs, this))`. -/
def emplace (s : Server) (cs : Fd) : Server :=
  { s with closes := Function.update s.closes cs (some 0),
           clients := s.clients.emplace cs ⟨s.count, some cs, [], s.log.length, []⟩,
           count := s.count + 1 }

/-- The queue of the session of `fd`. -/
def sendQueue (s : Server) (fd : Fd) : List (List UInt8) :=
  match s.clients.lookup fd with
  | none => []
  | some c => c.sendQueue

end Server

/-! ## `ClientSession` -/

namespace ClientSession

/-- `ClientSession::IsWantSend` -/
def isWantSend (c : ClientSession) : Bool := !c.sendQueue.isEmpty

/-- `ClientSession::PostSend` -/
def postSend (c : ClientSession) (msg : List UInt8) : ClientSession :=
  if msg ≠ [] then { c with sendQueue := c.sendQueue ++ [msg] } else c

/-- `send` has accepted `n` bytes of the front of the queue: it is shortened, or removed if that was all of it. -/
def accepted (c : ClientSession) (n : ℕ) : ClientSession :=
  match c.sendQueue with
  | [] => c
  | msg :: rest =>
    { c with sendQueue := if n < msg.length then msg.drop n :: rest else rest, sent := c.sent ++ msg.take n }

variable {c : ClientSession} {msg : List UInt8} {n : ℕ}

@[simp] theorem postSend_id : (c.postSend msg).id = c.id := by
  unfold postSend
  split <;> rfl

@[simp] theorem postSend_since : (c.postSend msg).since = c.since := by
  unfold postSend
  split <;> rfl

@[simp] theorem postSend_sent : (c.postSend msg).sent = c.sent := by
  unfold postSend
  split <;> rfl

@[simp] theorem postSend_flatten : (c.postSend msg).sendQueue.flatten = c.sendQueue.flatten ++ msg := by
  by_cases hm : msg = [] <;> simp [postSend, hm]

@[simp] theorem accepted_id : (c.accepted n).id = c.id := by
  unfold accepted
  split <;> rfl

@[simp] theorem accepted_socket : (c.accepted n).socket = c.socket := by
  unfold accepted
  split <;> rfl

@[simp] theorem accepted_since : (c.accepted n).since = c.since := by
  unfold accepted
  split <;> rfl

/-- What `send` takes leaves the queue at its front. -/
theorem accepted_stream (c : ClientSession) (n : ℕ) :
    (c.accepted n).sent ++ (c.accepted n).sendQueue.flatten = c.sent ++ c.sendQueue.flatten := by
  unfold accepted
  split
  next => rfl
  next msg rest hq =>
    by_cases hn : n < msg.length
    · rw [hq, if_pos hn, List.flatten_cons, List.append_assoc, ← List.append_assoc (msg.take n),
        List.take_append_drop, List.flatten_cons]
    · rw [hq, if_neg hn, List.take_of_length_le (Nat.le_of_not_lt hn), List.append_assoc, List.flatten_cons]

/-! ### Calls -/

/-- The loop of `ClientSession::GracefulShutdown`, after `shutdown(m_socket, SHUT_WR)`. -/
def gracefulShutdown : Prog Server Answer Unit
  | s, .recv (.bytes b) :: l => if b ≠ [] ∧ b.length ≤ recvBuf then gracefulShutdown s l else .halt .blocked s
  | s, .recv _ :: l => .ret () s l
  | s, _ => .halt .blocked s

/-- `ClientSession::Stop` of the session of `fd` -/
def stop (fd : Fd) : Prog Server Answer Unit := do
  match ((← Prog.get).clients.lookup fd).bind (·.socket) with
  | none => pure ()
  | some sock =>
    gracefulShutdown
    Prog.modify (·.close sock)
    Prog.modify (·.modify fd fun c => { c with socket := none })

/-- `ClientSession::Read` of the session `this`, with the `BroadcastMsg` of its server. -/
def read (broadcastMsg : List UInt8 → ℕ → Server → Server) (this : ℕ) : Prog Server Answer Bool
  | s, .recv (.bytes b) :: l =>
    if b ≠ [] ∧ b.length ≤ recvBuf then read broadcastMsg this (broadcastMsg b this s) l else .halt .blocked s
  | s, .recv .closed :: l => .ret false s l
  | s, .recv (.error e) :: l => .ret e.again s l
  | s, _ => .halt .blocked s

/-- `ClientSession::Write` of the session of `fd`, with the flags of `send`.  A `send` on a broken connection kills
the process, unless the flags say otherwise. -/
def write (flags : UInt32) (fd : Fd) : Prog Server Answer Bool
  | s, l =>
    match s.sendQueue fd, l with
    | [], l => .ret true s l
    | msg :: _, .send (.count n) :: l =>
      if n = 0 ∨ msg.length < n then .halt .blocked s
      else if n < msg.length then .ret true (s.modify fd (·.accepted n)) l
      else write flags fd (s.modify fd (·.accepted n)) l
    | _ :: _, .send .closed :: l => .ret false s l
    | _ :: _, .send (.error e) :: l =>
      if e = .EPIPE ∧ flags &&& msgNoSignal = 0 then .halt .killed s else .ret e.again s l
    | _ :: _, _ => .halt .blocked s

/-! ### What the calls do -/

variable {s s' : Server} {fd : Fd} {l l' : List Answer}

theorem gracefulShutdown_ret {u : Unit} (h : gracefulShutdown s l = .ret u s' l') : s' = s := by
  fun_induction gracefulShutdown s l with
  | case1 s b l hb ih => exact ih h
  | _ => simp_all

/-- `Stop` closes the socket of the session, once. -/
theorem stop_ret {u : Unit} (h : stop fd s l = .ret u s' l') :
    s' = match (s.clients.lookup fd).bind (·.socket) with
      | none => s
      | some sock => (s.close sock).modify fd fun c => { c with socket := none } := by
  obtain ⟨t, t', k, hget, h⟩ := Prog.bind_ret.1 h
  obtain ⟨rfl, rfl, rfl⟩ := Prog.get_ret.1 hget
  cases hsock : (s.clients.lookup fd).bind (·.socket) with
  | none =>
    simp only [hsock] at h
    exact (Prog.pure_ret.1 h).2.1.symm
  | some sock =>
    simp only [hsock] at h
    obtain ⟨_, t, k, hdrain, h⟩ := Prog.bind_ret.1 h
    obtain ⟨_, t', k', hclose, h⟩ := Prog.bind_ret.1 h
    rw [← (Prog.modify_ret.1 h).1, ← (Prog.modify_ret.1 hclose).1, gracefulShutdown_ret hdrain]

/-- **`Read` broadcasts what it receives**, up to the answer that ends it. -/
theorem read_ret {broadcastMsg : List UInt8 → ℕ → Server → Server} {this : ℕ} {b : Bool}
    (h : read broadcastMsg this s l = .ret b s' l') :
    ∃ chunks : List (List UInt8), s' = chunks.foldl (fun s x => broadcastMsg x this s) s ∧
      (∀ x ∈ chunks, x ≠ []) ∧ ∃ r, l = chunks.map (fun x => .recv (.bytes x)) ++ .recv r :: l' ∧
        (r = .closed ∧ b = false ∨ ∃ e, r = .error e ∧ b = e.again) := by
  fun_induction read broadcastMsg this s l with
  | case1 s x l hx ih =>
    obtain ⟨chunks, hs, hne, r, hl, hr⟩ := ih h
    refine ⟨x :: chunks, hs, List.forall_mem_cons.2 ⟨hx.1, hne⟩, r, ?_, hr⟩
    rw [hl, List.map_cons, List.cons_append]
  | case3 s l =>
    cases h
    exact ⟨[], rfl, by simp, _, rfl, .inl ⟨rfl, rfl⟩⟩
  | case4 s e l =>
    cases h
    exact ⟨[], rfl, by simp, _, rfl, .inr ⟨e, rfl, rfl⟩⟩
  | _ => cases h

/-- The same if it waits for an answer. -/
theorem read_halt {broadcastMsg : List UInt8 → ℕ → Server → Server} {this : ℕ} {e : Halt}
    (h : read broadcastMsg this s l = .halt e s') :
    ∃ chunks : List (List UInt8), s' = chunks.foldl (fun s x => broadcastMsg x this s) s := by
  fun_induction read broadcastMsg this s l with
  | case1 s x l hx ih =>
    obtain ⟨chunks, hs⟩ := ih h
    exact ⟨x :: chunks, hs⟩
  | _ =>
    cases h <;> exact ⟨[], rfl⟩

/-- `Write` takes bytes off the queue of its session. -/
theorem write_ret {flags : UInt32} {b : Bool} (h : write flags fd s l = .ret b s' l') :
    ∃ counts : List ℕ, s' = counts.foldl (fun s n => s.modify fd (·.accepted n)) s := by
  fun_induction write flags fd s l with
  | case3 s msg rest n l hq hn hlt =>
    cases h
    exact ⟨[n], rfl⟩
  | case4 s msg rest n l hq hn hlt ih =>
    obtain ⟨counts, hs⟩ := ih h
    exact ⟨n :: counts, hs⟩
  | _ =>
    cases h <;> exact ⟨[], rfl⟩

/-- The same if it waits for an answer. -/
theorem write_halt {flags : UInt32} {e : Halt} (h : write flags fd s l = .halt e s') :
    ∃ counts : List ℕ, s' = counts.foldl (fun s n => s.modify fd (·.accepted n)) s := by
  fun_induction write flags fd s l with
  | case4 s msg rest n l hq hn hlt ih =>
    obtain ⟨counts, hs⟩ := ih h
    exact ⟨n :: counts, hs⟩
  | _ =>
    cases h <;> exact ⟨[], rfl⟩

/-- It consumes answers of `send` only, and gives up when the connection is lost. -/
theorem write_answers {flags : UInt32} {b : Bool} (h : write flags fd s l = .ret b s' l') :
    ∃ sends : List SendResult, l = sends.map .send ++ l' ∧ (b = false → ∃ r ∈ sends, (Answer.send r).Lost) := by
  fun_induction write flags fd s l with
  | case1 =>
    cases h
    exact ⟨[], rfl, nofun⟩
  | case3 s msg rest n l hq hn hlt =>
    cases h
    exact ⟨[.count n], rfl, nofun⟩
  | case4 s msg rest n l hq hn hlt ih =>
    obtain ⟨sends, hl, hb⟩ := ih h
    refine ⟨.count n :: sends, by rw [hl, List.map_cons, List.cons_append], fun h0 => ?_⟩
    obtain ⟨r, hr, hlost⟩ := hb h0
    exact ⟨r, List.mem_cons_of_mem _ hr, hlost⟩
  | case5 =>
    cases h
    exact ⟨[.closed], rfl, fun _ => ⟨.closed, List.mem_cons_self, trivial⟩⟩
  | case7 s msg rest e l hq he =>
    cases h
    exact ⟨[.error e], rfl, fun h0 => ⟨.error e, List.mem_cons_self, h0⟩⟩
  | _ => cases h

/-! ### Invariants -/

variable {I : Server → Prop}

theorem keeps_gracefulShutdown : Prog.Keeps I gracefulShutdown := by
  intro s l h
  fun_induction gracefulShutdown s l with
  | case1 s b l hb ih => exact ih h
  | _ => exact h

theorem keeps_stop (hclose : ∀ s sock, I s → I (s.close sock))
    (hsock : ∀ s, I s → I (s.modify fd fun c => { c with socket := none })) : Prog.Keeps I (stop fd) := by
  refine Prog.keeps_get.bind fun s => ?_
  split
  · exact Prog.keeps_pure ()
  · refine keeps_gracefulShutdown.bind fun _ => ?_
    exact (Prog.keeps_modify fun s => hclose s _).bind fun _ => Prog.keeps_modify hsock

theorem keeps_read {broadcastMsg : List UInt8 → ℕ → Server → Server} {this : ℕ}
    (hcast : ∀ s b, b ≠ [] → b.length ≤ recvBuf → I s → I (broadcastMsg b this s)) :
    Prog.Keeps I (read broadcastMsg this) := by
  intro s l h
  fun_induction read broadcastMsg this s l with
  | case1 s b l hb ih => exact ih (hcast s b hb.1 hb.2 h)
  | _ => exact h

theorem keeps_write {flags : UInt32} (hsend : ∀ s n, I s → I (s.modify fd (·.accepted n))) :
    Prog.Keeps I (write flags fd) := by
  intro s l h
  fun_induction write flags fd s l with
  | case3 => exact hsend _ _ h
  | case4 s msg rest n l hq hn hlt ih => exact ih (hsend _ _ h)
  | _ => exact h

end ClientSession

/-! ## The numbers of the sessions -/

/-- Different sessions have different numbers, smaller than the number of sessions made. -/
structure Numbered (s : Server) : Prop where
  lt : ∀ fd c, s.clients.lookup fd = some c → c.id < s.count
  inj : ∀ fd fd' c c', s.clients.lookup fd = some c → s.clients.lookup fd' = some c' → c.id = c'.id → fd = fd'

theorem numbered_start (listenSockets : List Fd) (interest : Fd → Option Registration) :
    Numbered (.start listenSockets interest) :=
  ⟨fun k c hk => by simp [Server.start] at hk, fun k k' c c' hk => by simp [Server.start] at hk⟩

namespace Numbered

variable {s s' : Server} {fd : Fd}

theorem update (h : Numbered s) {f : Fd → ClientSession → ClientSession} (hf : ∀ fd c, (f fd c).id = c.id)
    (hcount : s'.count = s.count) (hs : ∀ k, s'.clients.lookup k = (s.clients.lookup k).map (f k)) :
    Numbered s' := by
  refine ⟨fun fd c hc => ?_, fun fd fd' c c' hc hc' he => ?_⟩
  · rw [hs, Option.map_eq_some_iff] at hc
    obtain ⟨d, hd, rfl⟩ := hc
    rw [hf, hcount]
    exact h.lt fd d hd
  · rw [hs, Option.map_eq_some_iff] at hc hc'
    obtain ⟨d, hd, rfl⟩ := hc
    obtain ⟨d', hd', rfl⟩ := hc'
    rw [hf, hf] at he
    exact h.inj fd fd' d d' hd hd' he

theorem modify (h : Numbered s) {f : ClientSession → ClientSession} (hf : ∀ c, (f c).id = c.id) :
    Numbered (s.modify fd f) :=
  h.update (fun k c => by split <;> simp [hf]) rfl fun _ => Table.lookup_modify f

theorem erase (h : Numbered s) (fd : Fd) : Numbered (s.erase fd) := by
  refine ⟨fun k c hk => ?_, fun k k' c c' hk hk' => ?_⟩
  · exact h.lt k c (Table.lookup_erase_eq_some.1 hk).2
  · exact h.inj k k' c c' (Table.lookup_erase_eq_some.1 hk).2 (Table.lookup_erase_eq_some.1 hk').2

theorem emplace (h : Numbered s) (cs : Fd) : Numbered (s.emplace cs) := by
  refine ⟨fun k c hk => ?_, fun k k' c c' hk hk' he => ?_⟩
  · rcases Table.lookup_emplace hk with hold | ⟨-, rfl⟩
    · exact Nat.lt_succ_of_lt (h.lt k c hold)
    · exact Nat.lt_succ_self _
  · rcases Table.lookup_emplace hk with hold | ⟨rfl, rfl⟩ <;>
      rcases Table.lookup_emplace hk' with hold' | ⟨rfl, rfl⟩
    · exact h.inj k k' c c' hold hold' he
    · exact absurd he (Nat.ne_of_lt (h.lt k c hold))
    · exact absurd he.symm (Nat.ne_of_lt (h.lt k' c' hold'))
    · rfl

end Numbered

/-! ## The phases of a server -/

/-- Where `ChatServer::Start` is: before a test of `m_running`, before `Stop`, at its end, or in a call that does
not return. -/
inductive Phase where
  | loop | stopping | stopped | halted (h : Halt)
  deriving DecidableEq

structure State where
  phase : Phase
  server : Server

/-- The phase after an iteration: `while (m_running)`. -/
def loopTest (s : Server) : Phase := if s.running then .loop else .stopping

/-- The state after a part of the program, which goes on at `next`. -/
def State.of (next : Server → Phase) {α : Type} : Outcome Server Answer α → State
  | .ret _ s _ => ⟨next s, s⟩
  | .halt h s => ⟨.halted h, s⟩

theorem State.of_server (next : Server → Phase) {α : Type} (o : Outcome Server Answer α) :
    (State.of next o).server = o.state := by
  cases o <;> rfl

end TcpChat.EventLoop
