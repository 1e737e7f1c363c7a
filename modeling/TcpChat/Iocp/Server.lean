import TcpChat.Lib.Prog
import TcpChat.Lib.System
import TcpChat.Lib.Table
import Mathlib.Logic.Function.Basic
import Mathlib.Data.List.Perm.Basic

/-!
# The I/O completion port server

`ChatServer` and `ClientSession` of `NetworkBasics/iocp/Server`.  A step of the system is either the completion of a
pending overlapped operation, after which its packet waits at the completion port, or one iteration of `RunLoop`,
which takes the first packet and runs its handler.

* A session is a number, for the address of the object, which is also the completion key of its operations.  `heap`
  says which sessions exist; a handler that is called on another one has no behaviour.
* Closing a socket cancels its pending operations: they complete later, and not successfully.
* `posted` and `handed` are histories, which only the statements about the server read.
-/

namespace TcpChat.Iocp

open TcpChat.Lib

abbrev Socket := ℕ

/-- The address of a session. -/
abbrev Ptr := ℕ

/-- `ACCEPT_DEPTH` -/
def acceptDepth : ℕ := 4

/-- `sizeof(m_recvBuf)` -/
def recvBufLen : ℕ := 64 * 1024

/-! ## State -/

/-- An overlapped operation: `AcceptEx` with the context's sockets, `WSARecv` and `WSASend` with the completion key
and the socket they were called on. -/
inductive Op where
  | accept (listenSock acceptSock : Socket) | recv (key : Ptr) (sock : Socket) | send (key : Ptr) (sock : Socket)
  deriving DecidableEq

namespace Op

/-- The socket on which the operation was started. -/
def handle : Op → Socket
  | accept listenSock _ => listenSock
  | recv _ sock | send _ sock => sock

/-- The session that is the completion key. -/
def key : Op → Option Ptr
  | accept _ _ => none
  | recv key _ | send key _ => some key

end Op

structure Pending where
  op : Op
  cancelled : Bool
  deriving DecidableEq

/-- A completion packet.  `data` are the bytes received. -/
structure Packet where
  op : Op
  ok : Bool
  data : List UInt8
  deriving DecidableEq

/-- `ClientSession` -/
structure ClientSession where
  /-- `m_socket`, `none` for `INVALID_SOCKET`. -/
  socket : Option Socket
  sendQueue : List (List UInt8)
  sendInFlight : Bool
  /-- History: the messages that were broadcast to the session. -/
  posted : List (List UInt8)
  /-- History: the buffers that `WSASend` took. -/
  handed : List (List UInt8)
  deriving DecidableEq

/-- `ChatServer`, with the memory and the kernel's part of the state. -/
structure Server where
  clients : Table Socket Ptr
  heap : Ptr → Option ClientSession
  /-- The number of sessions made so far. -/
  count : ℕ
  opened : Socket → Bool
  pending : List Pending
  packets : List Packet

/-- The operations that have not been handled. -/
def Server.outstanding (s : Server) : List Op := s.pending.map Pending.op ++ s.packets.map Packet.op

/-- The answers of the calls: whether they succeed, and the socket that `CreateAcceptSocket` makes. -/
inductive Answer where
  | associate (ok : Bool) | wsaRecv (ok : Bool) | wsaSend (ok : Bool) | acceptSocket (a : Option Socket)
  deriving DecidableEq

namespace Server

/-- Changes the session `p`. -/
def modify (s : Server) (p : Ptr) (f : ClientSession → ClientSession) : Server :=
  { s with heap := Function.update s.heap p ((s.heap p).map f) }

/-- An overlapped operation has been started. -/
def start (s : Server) (op : Op) : Server := { s with pending := s.pending ++ [⟨op, false⟩] }

/-- `closesocket(sock)` -/
def closesocket (s : Server) (sock : Socket) : Server :=
  { s with opened := Function.update s.opened sock false,
           pending := s.pending.map fun o => if o.op.handle = sock then { o with cancelled := true } else o }

/-- `ClientSession::Stop` -/
def stop (s : Server) (p : Ptr) : Server :=
  match (s.heap p).bind (·.socket) with
  | none => s
  | some sock => (s.closesocket sock).modify p fun c => { c with socket := none }

/-- The destructor of the session, and the end of its memory. -/
def destroy (s : Server) (p : Ptr) : Server := { s.stop p with heap := Function.update (s.stop p).heap p none }

/-- `m_clients.erase(sock)` -/
def erase (s : Server) (sock : Option Socket) : Server :=
  match sock with
  | none => s
  | some sock =>
    match s.clients.lookup sock with
    | none => s
    | some p => { s.destroy p with clients := s.clients.erase sock }

/-- `m_clients.emplace(sock, std::move(sess))` -/
def emplace (s : Server) (sock : Socket) (p : Ptr) : Server :=
  if sock ∈ s.clients then s.destroy p else { s with clients := s.clients.emplace sock p }

variable (s : Server) (op : Op) (p : Ptr) (sock : Socket) (f : ClientSession → ClientSession)

theorem modify_modify (g : ClientSession → ClientSession) : (s.modify p f).modify p g = s.modify p (g ∘ f) := by
  simp only [modify, Function.update_self, Function.update_idem, Option.map_map]

theorem modify_start : (s.modify p f).start op = (s.start op).modify p f := rfl

theorem outstanding_start : (s.start op).outstanding.Perm (op :: s.outstanding) := by
  simp only [outstanding, start, List.map_append, List.map_cons, List.map_nil, List.append_assoc, List.singleton_append]
  exact List.perm_middle

@[simp] theorem outstanding_closesocket : (s.closesocket sock).outstanding = s.outstanding := by
  simp only [outstanding, closesocket, List.map_map]
  congr 1
  refine List.map_congr_left fun o _ => ?_
  simp only [Function.comp_apply]
  split <;> rfl

@[simp] theorem outstanding_stop : (s.stop p).outstanding = s.outstanding := by
  unfold stop
  split
  · rfl
  next sock _ => exact s.outstanding_closesocket sock

@[simp] theorem outstanding_destroy : (s.destroy p).outstanding = s.outstanding := s.outstanding_stop p

@[simp] theorem clients_stop : (s.stop p).clients = s.clients := by
  unfold stop
  split <;> rfl

@[simp] theorem count_stop : (s.stop p).count = s.count := by
  unfold stop
  split <;> rfl

theorem heap_stop : (s.stop p).heap = Function.update s.heap p ((s.heap p).map fun c => { c with socket := none }) := by
  unfold stop
  split
  next h =>
    refine (Function.update_eq_self_iff.2 ?_).symm
    cases hc : s.heap p with
    | none => rfl
    | some c =>
      rw [hc] at h
      simp only [Option.bind_some] at h
      simp [← h]
  next => rfl

/-- The socket of a session that is stopped is closed. -/
theorem opened_stop {c : ClientSession} (hc : s.heap p = some c) :
    (s.stop p).opened = match c.socket with
      | none => s.opened
      | some sock => Function.update s.opened sock false := by
  unfold stop
  rw [hc, Option.bind_some]
  cases c.socket <;> rfl

@[simp] theorem heap_destroy : (s.destroy p).heap = Function.update s.heap p none := by
  rw [destroy, heap_stop, Function.update_idem]

@[simp] theorem clients_destroy : (s.destroy p).clients = s.clients := s.clients_stop p

@[simp] theorem count_destroy : (s.destroy p).count = s.count := s.count_stop p

/-- The destructor closes nothing after `Stop`. -/
theorem opened_stop_destroy {c : ClientSession} (hc : s.heap p = some c) (hsock : c.socket = some sock) :
    ((s.stop p).destroy p).opened = Function.update s.opened sock false := by
  have hstopped : (s.stop p).heap p = some { c with socket := none } := by
    rw [s.heap_stop, Function.update_self, hc, Option.map_some]
  have hopened := s.opened_stop p hc
  rw [hsock] at hopened
  exact ((s.stop p).opened_stop p hstopped).trans hopened

end Server

/-! ## `ClientSession` -/

/-- An access to the session `p`. -/
def deref (p : Ptr) : Prog Server Answer ClientSession := fun s l =>
  match s.heap p with
  | none => .halt .killed s
  | some c => .ret c s l

/-- `ClientSession::PostRecv` -/
def postRecv (p : Ptr) : Prog Server Answer Bool := fun s l =>
  match s.heap p, l with
  | none, _ => .halt .killed s
  | some c, .wsaRecv true :: l =>
    match c.socket with
    | none => .halt .blocked s
    | some sock => .ret true (s.start (.recv p sock)) l
  | some _, .wsaRecv false :: l => .ret false s l
  | some _, _ => .halt .blocked s

/-- `ClientSession::PostSend` -/
def postSend (p : Ptr) (msg : List UInt8) : Prog Server Answer Bool := fun s l =>
  match s.heap p with
  | none => .halt .killed s
  | some c =>
    if msg = [] then .ret true s l
    else
      let queue := c.sendQueue ++ [msg]
      if c.sendInFlight then .ret true (s.modify p fun c => { c with sendQueue := queue }) l
      else
        match l, c.socket with
        | .wsaSend true :: l, some sock =>
          .ret true ((s.start (.send p sock)).modify p fun c =>
            { c with sendQueue := queue, sendInFlight := true, handed := c.handed ++ queue.take 1 }) l
        -- Immediate failure
        | .wsaSend false :: l, _ => .ret false (s.modify p fun c => { c with sendQueue := queue.tail }) l
        | _, _ => .halt .blocked s

section

variable {s s' : Server} {l l' : List Answer} {p : Ptr} {msg : List UInt8} {b : Bool}

theorem deref_ret {c : ClientSession} : deref p s l = .ret c s' l' ↔ s.heap p = some c ∧ s = s' ∧ l = l' := by
  unfold deref
  cases s.heap p <;> simp

/-- A `WSARecv` that is accepted is outstanding. -/
theorem postRecv_ret (h : postRecv p s l = .ret b s' l') : ∃ c, s.heap p = some c ∧
    (b = true ∧ l = .wsaRecv true :: l' ∧ (∃ sock, c.socket = some sock ∧ s' = s.start (.recv p sock)) ∨
      b = false ∧ l = .wsaRecv false :: l' ∧ s' = s) := by
  unfold postRecv at h
  split at h
  · cases h
  next c l hc =>
    refine ⟨c, hc, .inl ?_⟩
    split at h
    · cases h
    next sock hsock =>
      cases h
      exact ⟨rfl, rfl, sock, hsock, rfl⟩
  next c l hc =>
    cases h
    exact ⟨c, hc, .inr ⟨rfl, rfl, rfl⟩⟩
  · cases h

/-- A message is ignored, is queued behind the send that is in flight, or is sent at once; `WSASend` may refuse it. -/
theorem postSend_ret (h : postSend p msg s l = .ret b s' l') : ∃ c, s.heap p = some c ∧
    (msg = [] ∧ s' = s ∧ l' = l ∨
      msg ≠ [] ∧ c.sendInFlight = true ∧ l' = l ∧
        s' = s.modify p (fun d => { d with sendQueue := c.sendQueue ++ [msg] }) ∨
      msg ≠ [] ∧ c.sendInFlight = false ∧ l = .wsaSend true :: l' ∧ (∃ sock, c.socket = some sock ∧
        s' = (s.start (.send p sock)).modify p fun d =>
          { d with sendQueue := c.sendQueue ++ [msg], sendInFlight := true,
                   handed := d.handed ++ (c.sendQueue ++ [msg]).take 1 }) ∨
      msg ≠ [] ∧ c.sendInFlight = false ∧ l = .wsaSend false :: l' ∧
        s' = s.modify p fun d => { d with sendQueue := (c.sendQueue ++ [msg]).tail }) := by
  unfold postSend at h
  split at h
  · cases h
  next c hc =>
    refine ⟨c, hc, ?_⟩
    split at h
    next hmsg =>
      cases h
      exact .inl ⟨hmsg, rfl, rfl⟩
    next hmsg =>
      dsimp only at h
      split at h
      next hflight =>
        cases h
        exact .inr (.inl ⟨hmsg, hflight, rfl, rfl⟩)
      next hflight =>
        simp only [Bool.not_eq_true] at hflight
        split at h
        next sock hsock =>
          cases h
          exact .inr (.inr (.inl ⟨hmsg, hflight, rfl, sock, hsock, rfl⟩))
        next =>
          cases h
          exact .inr (.inr (.inr ⟨hmsg, hflight, rfl, rfl⟩))
        next => cases h

end

/-! ## `ChatServer` -/

/-- `ChatServer::AssociateHandle` -/
def associateHandle : Prog Server Answer Bool
  | s, .associate ok :: l => .ret ok s l
  | s, _ => .halt .blocked s

/-- `ChatServer::CreateAcceptSocket` -/
def createAcceptSocket (listenSock : Socket) : Prog Server Answer Bool
  | s, .acceptSocket (some a) :: l =>
    if s.opened a then .halt .blocked s
    else .ret true ({ s with opened := Function.update s.opened a true }.start (.accept listenSock a)) l
  | s, .acceptSocket none :: l => .ret false s l
  | s, _ => .halt .blocked s

theorem associateHandle_ret {s s' : Server} {l l' : List Answer} {b : Bool} (h : associateHandle s l = .ret b s' l') :
    l = .associate b :: l' ∧ s' = s := by
  unfold associateHandle at h
  split at h
  · cases h
    exact ⟨rfl, rfl⟩
  · cases h

/-- A new accept socket was closed before. -/
theorem createAcceptSocket_ret {s s' : Server} {l l' : List Answer} {listenSock : Socket} {b : Bool}
    (h : createAcceptSocket listenSock s l = .ret b s' l') :
    (∃ a, l = .acceptSocket (some a) :: l' ∧ s.opened a = false ∧
      s' = { s with opened := Function.update s.opened a true }.start (.accept listenSock a)) ∨
      l = .acceptSocket none :: l' ∧ s' = s := by
  unfold createAcceptSocket at h
  split at h
  next a l =>
    split at h
    · cases h
    next hopened =>
      cases h
      exact .inl ⟨a, rfl, Bool.eq_false_iff.2 hopened, rfl⟩
  · cases h
    exact .inr ⟨rfl, rfl⟩
  · cases h

/-- The body of the loop of `ChatServer::BroadcastMsg`, for the session `p`. -/
def broadcastTo (msg : List UInt8) (sender p : Ptr) : Prog Server Answer Unit :=
  if p = sender then pure ()
  else do
    Prog.modify (·.modify p fun c => { c with posted := if msg = [] then c.posted else c.posted ++ [msg] })
    let _ ← postSend p msg

/-- `ChatServer::BroadcastMsg` -/
def broadcastMsg (msg : List UInt8) (sender : Ptr) : Prog Server Answer Unit := do
  let s ← Prog.get
  Prog.each (broadcastTo msg sender) (s.clients.entries.map (·.2))

/-- `std::make_unique<ClientSession>(as, this)` -/
def makeSession (as : Socket) : Prog Server Answer Ptr := fun s l =>
  .ret s.count { s with heap := Function.update s.heap s.count (some ⟨some as, [], false, [], []⟩),
                        count := s.count + 1 } l

/-- `ChatServer::OnAcceptComplete` -/
def onAcceptComplete (ls as : Socket) (ok : Bool) : Prog Server Answer Unit :=
  if ok = false then Prog.modify (·.closesocket as)
  else do
    let sess ← makeSession as
    let associated ← associateHandle
    let posted ← (if associated then postRecv sess else pure false)
    if posted then
      Prog.modify (·.emplace as sess)
      let _ ← createAcceptSocket ls
    else
      Prog.modify (·.stop sess)
      Prog.modify (·.destroy sess)

/-- `s = sess->GetSocket()`, `sess->Stop()` and `m_clients.erase(s)`. -/
def closeSession (sess : Ptr) : Prog Server Answer Unit := do
  let c ← deref sess
  Prog.modify (·.stop sess)
  Prog.modify (·.erase c.socket)

/-- `ChatServer::OnRecvComplete`; `bytes` is the length of `data`. -/
def onRecvComplete (sess : Ptr) (data : List UInt8) (ok : Bool) : Prog Server Answer Unit :=
  if ok = false ∨ data = [] then closeSession sess
  else do
    let _ ← deref sess
    broadcastMsg data sess
    let _ ← postRecv sess

/-- `ChatServer::OnSendComplete` -/
def onSendComplete (sess : Ptr) (ok : Bool) : Prog Server Answer Unit :=
  if ok = false then closeSession sess
  else do
    let c ← deref sess
    Prog.modify (·.modify sess fun c => { c with sendQueue := c.sendQueue.tail, sendInFlight := false })
    match c.sendQueue.tail with
    | [] => pure ()
    | front :: _ => do
      let _ ← postSend sess front

/-- The `switch` in `ChatServer::RunLoop`. -/
def handlePacket (p : Packet) : Prog Server Answer Unit :=
  match p.op with
  | .accept ls as => onAcceptComplete ls as p.ok
  | .recv key _ => onRecvComplete key p.data p.ok
  | .send key _ => onSendComplete key p.ok

/-! ## Runs -/

/-- Either the pending operation number `k` completes, or `GetQueuedCompletionStatus` returns the first packet; then
`answers` are the answers of the handler's calls. -/
inductive Input where
  | complete (k : ℕ) (ok : Bool) (data : List UInt8)
  | dequeue (answers : List Answer)
  deriving DecidableEq

/-- How an operation may complete. -/
def Pending.MayComplete (o : Pending) (ok : Bool) (data : List UInt8) : Prop :=
  (ok = true → o.cancelled = false) ∧ data.length ≤ recvBufLen ∧
    (data ≠ [] → ok = true ∧ ∃ key sock, o.op = .recv key sock)

instance (o : Pending) (ok : Bool) (data : List UInt8) : Decidable (o.MayComplete ok data) :=
  decidable_of_iff ((ok = true → o.cancelled = false) ∧ data.length ≤ recvBufLen ∧
      (data ≠ [] → ok = true ∧ (o.op matches .recv _ _))) (by
    unfold Pending.MayComplete
    cases o.op <;> simp)

def Server.step (s : Server) : Input → Option Server
  | .complete k ok data =>
    match s.pending[k]? with
    | none => none
    | some o =>
      if o.MayComplete ok data then
        some { s with pending := s.pending.eraseIdx k, packets := s.packets ++ [⟨o.op, ok, data⟩] }
      else none
  | .dequeue answers =>
    match s.packets with
    | [] => none
    | p :: packets =>
      match handlePacket p { s with packets := packets } answers with
      | .ret _ s' _ => some s'
      | .halt _ _ => none

/-- A step completes one of the pending operations or handles the first packet. -/
theorem Server.step_cases {s s' : Server} {x : Input} (h : s.step x = some s') :
    (∃ k ok data o, x = .complete k ok data ∧ s.pending[k]? = some o ∧ o.MayComplete ok data ∧
      s' = { s with pending := s.pending.eraseIdx k, packets := s.packets ++ [⟨o.op, ok, data⟩] }) ∨
    ∃ answers packet packets l, x = .dequeue answers ∧ s.packets = packet :: packets ∧
      handlePacket packet { s with packets := packets } answers = .ret () s' l := by
  unfold Server.step at h
  split at h
  next k ok data =>
    split at h
    · cases h
    next o ho =>
      split at h
      next hmay => exact .inl ⟨k, ok, data, o, rfl, ho, hmay, (Option.some.inj h).symm⟩
      · cases h
  next answers =>
    split at h
    · cases h
    next packet packets hpackets =>
      split at h
      next t l hret => exact .inr ⟨answers, packet, packets, l, rfl, hpackets, Option.some.inj h ▸ hret⟩
      · cases h

/-- The packet of a completed operation stands for the operation. -/
theorem Server.outstanding_complete {s : Server} {k : ℕ} {o : Pending} (h : s.pending[k]? = some o) (ok : Bool)
    (data : List UInt8) :
    (Server.outstanding { s with pending := s.pending.eraseIdx k,
                                 packets := s.packets ++ [⟨o.op, ok, data⟩] }).Perm s.outstanding := by
  obtain ⟨hk, rfl⟩ := List.getElem?_eq_some_iff.1 h
  have hpending := ((List.getElem_cons_eraseIdx_perm hk).map Pending.op).append_right (s.packets.map Packet.op)
  simp only [Server.outstanding, List.map_append, List.map_cons, List.map_nil]
  rw [← List.append_assoc]
  exact (List.perm_append_singleton _ _).trans hpending

theorem Server.outstanding_dequeue {s : Server} {packet : Packet} {packets : List Packet}
    (h : s.packets = packet :: packets) :
    s.outstanding.Perm (packet.op :: Server.outstanding { s with packets := packets }) := by
  simp only [Server.outstanding, h, List.map_cons]
  exact List.perm_middle

/-- The state before the first `AcceptEx`. -/
def Server.listening (listenSockets : List Socket) : Server where
  clients := ∅
  heap := fun _ => none
  count := 0
  opened := fun sock => sock ∈ listenSockets
  pending := []
  packets := []

/-- `Start` starts several accepts for each listener. -/
def startAccepts (listenSockets : List Socket) : Prog Server Answer Unit :=
  Prog.each (fun ls => Prog.each (fun _ => do let _ ← createAcceptSocket ls) (List.range acceptDepth)) listenSockets

/-- The completion port server, from the start of `RunLoop` on. -/
def server : System Server Input where
  init s := ∃ listenSockets l l', listenSockets.Nodup ∧ startAccepts listenSockets (.listening listenSockets) l = .ret () s l'
  step := Server.step

/-- What holds before the first `AcceptEx`, and is kept by `CreateAcceptSocket`, holds when `RunLoop` starts. -/
theorem of_init {I : Server → Prop} {s : Server} (hlisten : ∀ listenSockets, I (.listening listenSockets))
    (hcreate : ∀ ls s l b s' l', I s → createAcceptSocket ls s l = .ret b s' l' → I s') (h : server.init s) : I s := by
  obtain ⟨listenSockets, l, l', -, hret⟩ := h
  have hstart : Prog.Triple (fun s _ => I s) (startAccepts listenSockets) fun _ s _ => I s := by
    refine Prog.triple_each fun ls _ => Prog.triple_each fun _ _ => ?_
    have hone : Prog.Triple (fun s _ => I s) (createAcceptSocket ls) fun _ s _ => I s :=
      fun s l b s' l' h hret => hcreate ls s l b s' l' h hret
    exact hone.bind fun _ => Prog.triple_pure fun _ _ h => h
  exact hstart _ _ _ _ _ (hlisten listenSockets) hret

/-! ## Two sessions -/

/-- One listener, for which two of the calls of `AcceptEx` succeed. -/
def twoAccepts : List Answer :=
  [.acceptSocket (some 1), .acceptSocket (some 2), .acceptSocket none, .acceptSocket none]

def twoListening : Server := (startAccepts [0] (.listening [0]) twoAccepts).state

theorem twoListening_init : server.init twoListening := ⟨[0], twoAccepts, [], by decide, rfl⟩

/-- Two clients connect, and the second one sends a byte, which is broadcast to the first. -/
def sendByte : List Input :=
  [.complete 0 true [], .dequeue [.associate true, .wsaRecv true, .acceptSocket none],
   .complete 0 true [], .dequeue [.associate true, .wsaRecv true, .acceptSocket none],
   .complete 1 true [65], .dequeue [.wsaSend true, .wsaRecv true]]

end TcpChat.Iocp
