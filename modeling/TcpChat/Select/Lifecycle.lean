import TcpChat.Select.Tick
import TcpChat.Listening
import TcpChat.Lib.Handles

/-!
# The whole life of the `select` server

`Start`, `Stop` and the destructor of `ChatServer`, called by one thread, with `RunEventLoop` inside `Start`.  `Start`
opens the listeners, and calls `Stop` when the loop has ended.

* `life` — the system of these calls; its steps in the loop are those of `server`;
* `Owned`, `Draining` — what is open while the loop runs, and while `Stop` goes through the clients;
* `accounted` — in each state of a run, everything that was opened is in use or has been closed exactly once, and
  `WSACleanup` has been called once for every `WSAStartup` that succeeded, except the one in use.
-/

namespace TcpChat.Select

open TcpChat.Lib TcpChat.Framing
open TcpChat.Listening (Candidate createListeningSockets createListeningSockets_spec)
open TcpChat.EventLoop (recvBuf)

/-! ## The calls -/

/-- What the thread is doing. -/
inductive Place where
  /-- No call is in progress. -/
  | idle
  /-- `RunEventLoop`, in `Start`. -/
  | looping (p : Position)
  /-- `Stop`, in the loop over `m_clients`: in the `Stop` of the first of `todo`.  The destructor has called it, or not.
  -/
  | stopping (todo : List Socket) (destructor : Bool)
  /-- The destructor has returned. -/
  | destroyed
  deriving DecidableEq

/-- The object, and how often `WSAStartup` has succeeded and `WSACleanup` has been called. -/
structure Life where
  place : Place
  server : Server
  startups : ℕ
  cleanups : ℕ

/-- The object after its constructor. -/
def Server.new : Server where
  wsaInit := false
  listenSockets := []
  clients := ∅
  toClose := []
  closes := fun _ => none
  count := 0
  log := []

inductive Call where
  /-- `Start`: whether `WSAStartup` succeeds, and what `getaddrinfo`, `socket`, `bind` and `listen` answer for each
  configured address. -/
  | start (wsa : Bool) (ips : List (Option (List Candidate)))
  /-- An answer in `RunEventLoop`. -/
  | loop (x : Input)
  /-- `Stop`, which `Start` calls too, and the destructor, with the order in which they go through `m_clients`. -/
  | stop (order : List Socket)
  | destroy (order : List Socket)
  /-- `recv` in the `GracefulShutdown` of a client; a client without a socket, or the end of the loop over the
  clients. -/
  | recv (r : RecvResult) | done

/-- Where a call of `Stop` leads back to. -/
def Place.after (destructor : Bool) : Place := if destructor then .destroyed else .idle

/-- `ChatServer::Start`, up to the call of `RunEventLoop`. -/
def startCall (l : Life) (wsa : Bool) (ips : List (Option (List Candidate))) : Option Life :=
  if wsa = false then some l
  else
    (createListeningSockets l.server.closes ips).map fun r =>
      let s := { l.server with listenSockets := l.server.listenSockets ++ r.1.reduceOption, closes := r.2 }
      if s.listenSockets = [] then { l with server := s, startups := l.startups + 1, cleanups := l.cleanups + 1 }
      else { l with place := .looping .wait, server := { s with wsaInit := true }, startups := l.startups + 1 }

/-- `ChatServer::Stop`, up to the loop over `m_clients`. -/
def stopCall (l : Life) (order : List Socket) (destructor : Bool) : Option Life :=
  let s := l.server
  if s.wsaInit = false ∧ s.listenSockets = [] ∧ s.clients.keys = [] then some { l with place := .after destructor }
  else if s.IsOrder order then
    some { l with place := .stopping order destructor,
                  server := { s with closes := s.listenSockets.foldl Closes.close s.closes, listenSockets := [] } }
  else none

/-- `ClientSession::Stop` of the client of `sock`: in `GracefulShutdown`, if it has a socket, and after it. -/
def stopClient (s : Server) (sock : Socket) (todo : List Socket) : Call → Option (List Socket × Server)
  | .done => if (s.clients.lookup sock).bind (·.socket) = none then some (todo, s) else none
  | .recv r =>
    match (s.clients.lookup sock).bind (·.socket), r with
    | none, _ => none
    | some _, .bytes b => if b ≠ [] ∧ b.length ≤ recvBuf then some (sock :: todo, s) else none
    | some m, .closed | some m, .error _ =>
      some (todo, (s.closesocket m).modify sock fun c => { c with socket := none })
  | _ => none

/-- A call, or an answer within one.  Once the clients have been stopped, the destructors of their sessions do
nothing. -/
def lifeStep (l : Life) (x : Call) : Option Life :=
  match l.place, x with
  | .idle, .start wsa ips => startCall l wsa ips
  | .idle, .stop order => stopCall l order false
  | .idle, .destroy order => stopCall l order true
  | .looping .left, .stop order => stopCall l order false
  | .looping p, .loop x =>
    (step ⟨p, l.server⟩ x).map fun s => { l with place := .looping s.position, server := s.server }
  | .stopping (sock :: todo) d, x =>
    (stopClient l.server sock todo x).map fun r => { l with place := .stopping r.1 d, server := r.2 }
  | .stopping [] d, .done =>
    some { l with place := .after d, server := { l.server with clients := ∅, wsaInit := false },
                  cleanups := l.cleanups + 1 }
  | _, _ => none

/-- The `select` server from its constructor to its destructor. -/
def life : System Life Call where
  init l := l = ⟨.idle, .new, 0, 0⟩
  step := lifeStep

/-- An iteration of the loop is one of `server`. -/
theorem run_loop {s t : State} {is : List Input} {l : Life} (hl : l.place = .looping s.position)
    (hs : l.server = s.server) (hrun : server.run s is = some t) :
    life.run l (is.map .loop) = some { l with place := .looping t.position, server := t.server } := by
  induction is generalizing s l with
  | nil =>
    cases hrun
    rw [← hl, ← hs]
    rfl
  | cons x is ih =>
    obtain ⟨u, hst, hrun⟩ := Option.bind_eq_some_iff.1 hrun
    have hlife : life.step l (.loop x) = some { l with place := .looping u.position, server := u.server } := by
      obtain ⟨place, sv, a, b⟩ := l
      obtain rfl : place = .looping s.position := hl
      obtain rfl : sv = s.server := hs
      have hstep : step ⟨s.position, s.server⟩ x = some u := hst
      show lifeStep _ _ = _
      simp only [lifeStep, hstep, Option.map_some]
    rw [List.map_cons, System.run, hlife, Option.bind_some]
    exact ih rfl rfl hrun

/-! ## What a step of the loop does to the sockets -/

inductive Effect (s : Server) : Server → Prop
  | quiet {s' : Server} (hinit : s'.wsaInit = s.wsaInit) (hls : s'.listenSockets = s.listenSockets)
      (hclients : s'.clients = s.clients) (hcloses : s'.closes = s.closes) : Effect s s'
  | added {cs : Socket} (hcs : ¬ s.IsOpen cs) : Effect s (s.addClient cs)
  | modified {sock : Socket} {f : ClientSession → ClientSession} (hf : ∀ c, (f c).socket = c.socket) :
      Effect s (s.modify sock f)
  | removed {sock m : Socket} (hm : (s.clients.lookup sock).bind (·.socket) = some m) :
      Effect s ((s.closesocket m).erase sock)
  | erased {sock : Socket} (hsock : (s.clients.lookup sock).bind (·.socket) = none) : Effect s (s.erase sock)

variable {s s' : Server} {st st' : State} {x : Input} {sock : Socket} {order todo recipients : List Socket}
  {msg rest : List UInt8}

theorem Effect.refl (s : Server) : Effect s s := .quiet rfl rfl rfl rfl

theorem receiveMsg_effect {r : RecvResult} (hst : receiveMsg s order sock todo r = some st') :
    Effect s st'.server := by
  cases r with
  | bytes b =>
    simp only [receiveMsg] at hst
    split at hst
    · cases hst
    · simp only [Option.ite_none_right_eq_some, Option.some.injEq] at hst
      obtain ⟨-, rfl⟩ := hst
      exact .quiet rfl rfl rfl rfl
  | closed =>
    cases hst
    exact .quiet rfl rfl rfl rfl
  | error e =>
    simp only [receiveMsg] at hst
    split at hst
    · cases hst
      exact .refl s
    · cases hst
      exact .quiet rfl rfl rfl rfl

theorem sendMsg_effect {r : SendResult} (hst : sendMsg s order todo msg sock recipients rest r = some st') :
    Effect s st'.server := by
  cases r with
  | count n =>
    simp only [sendMsg, Option.ite_none_right_eq_some] at hst
    obtain ⟨-, hst⟩ := hst
    split at hst
    · cases hst
      exact .modified fun _ => rfl
    · cases hst
      exact .modified fun _ => rfl
  | closed =>
    cases hst
    exact .modified fun _ => rfl
  | error e =>
    cases hst
    exact .modified fun _ => rfl

theorem removeClient_effect (hst : removeClient s sock todo x = some st') : Effect s st'.server := by
  cases x <;> simp only [removeClient, reduceCtorEq] at hst
  case recv r =>
    split at hst
    · cases hst
    · simp only [Option.ite_none_right_eq_some, Option.some.injEq] at hst
      obtain ⟨-, rfl⟩ := hst
      exact .refl s
    next m hm =>
      cases hst
      exact .removed hm
    next m e hm =>
      cases hst
      exact .removed hm
  case done =>
    split at hst
    · cases hst
      exact .refl s
    next hc =>
      cases hst
      exact .erased (by rw [hc]; rfl)
    · cases hst

/-- **A step of the loop adds a client, changes a session, removes a client with its socket, or leaves all alone.** -/
theorem step_effect (hst : step st x = some st') : Effect st.server st'.server := by
  obtain ⟨p, s⟩ := st
  cases p with
  | wait =>
    rcases step_wait hst rfl with ⟨order, set, -, -, rfl⟩ | ⟨-, rfl⟩ | rfl
    · exact .refl s
    · exact .refl s
    · exact .refl s
  | accepting ready ls =>
    cases ls <;> cases x <;> simp only [step, Option.ite_none_left_eq_some, Option.ite_none_right_eq_some,
      Option.some.injEq, reduceCtorEq] at hst
    case nil.loop =>
      obtain ⟨-, rfl⟩ := hst
      exact .quiet rfl rfl rfl rfl
    case cons.accepted =>
      obtain ⟨hcs, rfl⟩ := hst
      exact .added hcs
    case cons.refused =>
      subst hst
      exact .refl s
  | receiving order todo =>
    cases todo <;> cases x <;> simp only [step, Option.some.injEq, reduceCtorEq] at hst
    case nil.done =>
      subst hst
      exact .refl s
    case cons.recv => exact receiveMsg_effect hst
  | sending order todo msg recipients rest =>
    cases recipients <;> cases x <;> simp only [step, reduceCtorEq] at hst
    exact sendMsg_effect hst
  | removing todo =>
    cases todo with
    | nil =>
      cases x <;> simp only [step, Option.some.injEq, reduceCtorEq] at hst
      subst hst
      exact .quiet rfl rfl rfl rfl
    | cons sock todo => exact removeClient_effect hst
  | left => cases hst

/-! ## What is open -/

/-- While the loop runs: the different listeners, and the sockets of the sessions, which are found under their own
numbers. -/
structure Owned (s : Server) : Prop where
  wsaInit : s.wsaInit = true
  balanced : Closes.Balanced s.closes {sock | sock ∈ s.listenSockets ∨ sock ∈ s.clients}
  socket : ∀ sock c, s.clients.lookup sock = some c → c.socket = some sock
  apart : ∀ sock ∈ s.listenSockets, sock ∉ s.clients
  nodup : s.listenSockets.Nodup

/-- While `Stop` goes through the clients: the sockets of those that are still to come. -/
structure Draining (s : Server) (todo : List Socket) : Prop where
  balanced : Closes.Balanced s.closes {sock | sock ∈ todo}
  listenSockets : s.listenSockets = []
  nodup : todo.Nodup
  socket : ∀ sock ∈ todo, (s.clients.lookup sock).bind (·.socket) = some sock
  stopped : ∀ sock ∉ todo, (s.clients.lookup sock).bind (·.socket) = none

/-- Between two calls: nothing. -/
structure AllClosed (s : Server) : Prop where
  wsaInit : s.wsaInit = false
  listenSockets : s.listenSockets = []
  keys : s.clients.keys = []
  balanced : Closes.Balanced s.closes ∅

theorem Owned.bind_socket (h : Owned s) (sock : Socket) :
    (s.clients.lookup sock).bind (·.socket) = if sock ∈ s.clients then some sock else none := by
  split
  next hmem =>
    obtain ⟨c, hc⟩ := Option.isSome_iff_exists.1 (AList.lookup_isSome.2 hmem)
    rw [hc, Option.bind_some, h.socket sock c hc]
  next hmem => rw [AList.lookup_eq_none.2 hmem, Option.bind_none]

theorem Owned.addClient {cs : Socket} (h : Owned s) (hcs : ¬ s.IsOpen cs) : Owned (s.addClient cs) := by
  have hnot : ¬ (cs ∈ s.listenSockets ∨ cs ∈ s.clients) := fun hm => hcs ((h.balanced.isOpen cs).1 hm)
  rw [not_or] at hnot
  have hlookup : ∀ g, (s.addClient cs).clients.lookup g =
      if g = cs then some ⟨s.count, some cs, s.log.length, [], false⟩ else s.clients.lookup g := fun g =>
    Table.lookup_emplace_of_notMem hnot.2
  have hmem : ∀ g, g ∈ (s.addClient cs).clients ↔ g = cs ∨ g ∈ s.clients := by
    intro g
    rw [← AList.lookup_isSome, ← AList.lookup_isSome, hlookup]
    split
    next he => exact iff_of_true rfl (.inl he)
    next he => exact (or_iff_right he).symm
  refine ⟨h.wsaInit, (h.balanced.handOut cs).congr fun g => ?_, fun g c hg => ?_, fun g hg hc => ?_, h.nodup⟩
  · show g ∈ s.listenSockets ∨ g ∈ (s.addClient cs).clients ↔ g = cs ∨ g ∈ s.listenSockets ∨ g ∈ s.clients
    rw [hmem, or_left_comm]
  · rw [hlookup] at hg
    split at hg
    next he =>
      cases hg
      rw [he]
    next => exact h.socket g c hg
  · rcases (hmem g).1 hc with rfl | hc
    · exact hnot.1 hg
    · exact h.apart g hg hc

theorem Owned.modify {f : ClientSession → ClientSession} (h : Owned s) (hf : ∀ c, (f c).socket = c.socket) :
    Owned (s.modify sock f) := by
  refine ⟨h.wsaInit, h.balanced.congr fun g => or_congr Iff.rfl mem_modify, fun g c hg => ?_,
    fun g hg hc => h.apart g hg (mem_modify.1 hc), h.nodup⟩
  rw [Server.modify, Table.lookup_modify, Option.map_eq_some_iff] at hg
  obtain ⟨d, hd, rfl⟩ := hg
  split
  · rw [hf]
    exact h.socket g d hd
  · exact h.socket g d hd

theorem Owned.erase {s' : Server} (h : Owned s) (hinit : s'.wsaInit = s.wsaInit)
    (hls : s'.listenSockets = s.listenSockets) (hc : s'.clients = s.clients.erase sock)
    (hb : Closes.Balanced s'.closes {g | g ∈ s.listenSockets ∨ g ≠ sock ∧ g ∈ s.clients}) : Owned s' := by
  refine ⟨hinit.trans h.wsaInit, hb.congr fun g => ?_, fun g c hg => ?_, fun g hg hm => ?_, hls ▸ h.nodup⟩
  · rw [Set.mem_ofPred_eq, Set.mem_ofPred_eq, hls, hc, AList.mem_erase]
  · rw [hc, Table.lookup_erase_eq_some] at hg
    exact h.socket g c hg.2
  · rw [hc, AList.mem_erase] at hm
    exact h.apart g (hls ▸ hg) hm.2

theorem Owned.effect (h : Owned s) (he : Effect s s') : Owned s' := by
  cases he with
  | quiet hinit hls hclients hcloses =>
    refine ⟨hinit.trans h.wsaInit, ?_, ?_, ?_, hls ▸ h.nodup⟩
    · rw [hcloses, hls, hclients]
      exact h.balanced
    · rw [hclients]
      exact h.socket
    · rw [hls, hclients]
      exact h.apart
  | added hcs => exact h.addClient hcs
  | modified hf => exact h.modify hf
  | @removed sock m hm =>
    rw [h.bind_socket, Option.ite_none_right_eq_some, Option.some.injEq] at hm
    obtain ⟨hmem, rfl⟩ := hm
    refine h.erase rfl rfl rfl ((h.balanced.close (.inr hmem)).congr fun g => ?_)
    simp only [Set.mem_sdiff, Set.mem_ofPred_eq, Set.mem_singleton_iff]
    constructor
    · rintro (hg | ⟨hne, hg⟩)
      · refine ⟨.inl hg, ?_⟩
        rintro rfl
        exact h.apart g hg hmem
      · exact ⟨.inr hg, hne⟩
    · rintro ⟨hg | hg, hne⟩
      · exact .inl hg
      · exact .inr ⟨hne, hg⟩
  | @erased sock hsock =>
    have hmem : sock ∉ s.clients := by
      intro hmem
      rw [h.bind_socket, if_pos hmem] at hsock
      cases hsock
    refine h.erase rfl rfl rfl (h.balanced.congr fun g => or_congr Iff.rfl (and_iff_right_of_imp fun hg => ?_))
    rintro rfl
    exact hmem hg

/-- `Stop` closes the listeners. -/
theorem Owned.stop (h : Owned s) (ho : s.IsOrder order) :
    Draining { s with closes := s.listenSockets.foldl Closes.close s.closes, listenSockets := [] } order := by
  have hmem : ∀ g, g ∈ order ↔ g ∈ s.clients := fun g => ho.mem_iff
  refine ⟨(h.balanced.foldl_close h.nodup fun g hg => .inl hg).congr fun g => ?_, rfl,
    ho.nodup_iff.2 s.clients.keys_nodup, fun g hg => ?_, fun g hg => ?_⟩
  · rw [Set.mem_ofPred_eq, hmem]
    constructor
    · intro hg
      exact ⟨.inr hg, fun hls => h.apart g hls hg⟩
    · rintro ⟨hg | hg, hn⟩
      · exact absurd hg hn
      · exact hg
  · rw [hmem] at hg
    exact (h.bind_socket g).trans (if_pos hg)
  · rw [hmem] at hg
    exact (h.bind_socket g).trans (if_neg hg)

theorem Draining.stopClient {y : Call} {todo' : List Socket} (h : Draining s (sock :: todo))
    (hst : stopClient s sock todo y = some (todo', s')) : Draining s' todo' := by
  obtain ⟨hn, hnd⟩ := List.nodup_cons.1 h.nodup
  have hsock := h.socket sock List.mem_cons_self
  cases y <;> simp only [Select.stopClient, hsock, reduceCtorEq, if_false] at hst
  case recv r =>
    -- the socket is closed when there is nothing more to read
    have hclose : Draining ((s.closesocket sock).modify sock fun c => { c with socket := none }) todo := by
      have hbind : ∀ g, (((s.closesocket sock).modify sock fun c => { c with socket := none }).clients.lookup g).bind
          (·.socket) = if g = sock then none else (s.clients.lookup g).bind (·.socket) := by
        intro g
        rw [Server.modify, Table.lookup_modify]
        show ((s.clients.lookup g).map _).bind _ = _
        by_cases hg : g = sock
        · cases s.clients.lookup g <;> simp [hg]
        · cases s.clients.lookup g <;> simp [hg]
      refine ⟨(h.balanced.close (k := sock) List.mem_cons_self).congr fun g => ?_, h.listenSockets, hnd,
        fun g hg => ?_, fun g hg => ?_⟩
      · simp only [Set.mem_sdiff, Set.mem_ofPred_eq, Set.mem_singleton_iff, List.mem_cons]
        constructor
        · intro hg
          refine ⟨.inr hg, ?_⟩
          rintro rfl
          exact hn hg
        · rintro ⟨hg, hne⟩
          exact hg.resolve_left hne
      · rw [hbind, if_neg]
        · exact h.socket g (List.mem_cons_of_mem sock hg)
        · rintro rfl
          exact hn hg
      · rw [hbind]
        split
        · rfl
        next hne => exact h.stopped g (by simp [hne, hg])
    cases r with
    | bytes b =>
      simp only [Option.ite_none_right_eq_some, Option.some.injEq] at hst
      obtain ⟨-, he⟩ := hst
      cases he
      exact h
    | closed =>
      cases hst
      exact hclose
    | error e =>
      cases hst
      exact hclose

/-- The clients that `Stop` drops have no socket any more. -/
theorem Draining.allClosed (h : Draining s []) : AllClosed { s with clients := ∅, wsaInit := false } :=
  ⟨rfl, h.listenSockets, AList.keys_empty, h.balanced.congr fun g => by simp⟩

/-! ## Runs -/

/-- What holds at each place. -/
def Life.Sound : Life → Prop
  | ⟨.idle, s, startups, cleanups⟩ | ⟨.destroyed, s, startups, cleanups⟩ => AllClosed s ∧ startups = cleanups
  | ⟨.looping _, s, startups, cleanups⟩ => Owned s ∧ startups = cleanups + 1
  | ⟨.stopping todo _, s, startups, cleanups⟩ => Draining s todo ∧ startups = cleanups + 1

theorem sound_after {destructor : Bool} {startups cleanups : ℕ} (h : AllClosed s) (he : startups = cleanups) :
    Life.Sound ⟨.after destructor, s, startups, cleanups⟩ := by
  cases destructor
  · exact ⟨h, he⟩
  · exact ⟨h, he⟩

/-- What `Start` has opened when it calls `RunEventLoop`. -/
theorem startCall_sound {l l' : Life} {wsa : Bool} {ips : List (Option (List Candidate))} (h : AllClosed l.server)
    (he : l.startups = l.cleanups) (hp : l.place = .idle) (hst : startCall l wsa ips = some l') : l'.Sound := by
  obtain ⟨place, s, a, b⟩ := l
  obtain rfl : place = .idle := hp
  have hnone : ∀ g, g ∉ s.clients := by
    intro g hg
    rw [AList.mem_keys, h.keys] at hg
    exact absurd hg List.not_mem_nil
  unfold startCall at hst
  split at hst
  · cases hst
    exact ⟨h, he⟩
  · obtain ⟨⟨rs, t⟩, hcreate, hst⟩ := Option.map_eq_some_iff.1 hst
    obtain ⟨-, hnd, -, hbal⟩ := createListeningSockets_spec h.balanced hcreate
    have hls : s.listenSockets ++ rs.reduceOption = rs.reduceOption := by rw [h.listenSockets, List.nil_append]
    dsimp only at hst
    rw [hls] at hst
    split at hst
    next hempty =>
      subst hst
      refine ⟨⟨h.wsaInit, hempty, h.keys, hbal.congr fun g => ?_⟩, congrArg (· + 1) he⟩
      rw [Set.mem_ofPred_eq, hempty]
      simp
    next =>
      subst hst
      refine ⟨⟨rfl, hbal.congr fun g => ?_, fun g c hc => ?_, fun g _ => hnone g, hnd⟩, congrArg (· + 1) he⟩
      · exact ⟨fun hg => .inr (hg.resolve_right (hnone g)), fun hg => .inl (hg.resolve_left (Set.notMem_empty g))⟩
      · exact absurd (AList.lookup_isSome.1 (by rw [hc]; rfl)) (hnone g)

/-- With nothing to stop, `Stop` returns at once. -/
theorem stopCall_allClosed {l : Life} {destructor : Bool} (h : AllClosed l.server) :
    stopCall l order destructor = some { l with place := .after destructor } := by
  unfold stopCall
  rw [if_pos ⟨h.wsaInit, h.listenSockets, h.keys⟩]

theorem step_sound {l l' : Life} {y : Call} (h : l.Sound) (hst : lifeStep l y = some l') : l'.Sound := by
  obtain ⟨place, s, a, b⟩ := l
  cases place with
  | idle =>
    obtain ⟨hclosed, he⟩ := h
    cases y <;> simp only [lifeStep, reduceCtorEq] at hst
    case start wsa ips => exact startCall_sound hclosed he rfl hst
    case stop order =>
      rw [stopCall_allClosed hclosed] at hst
      cases hst
      exact ⟨hclosed, he⟩
    case destroy order =>
      rw [stopCall_allClosed hclosed] at hst
      cases hst
      exact ⟨hclosed, he⟩
  | looping p =>
    obtain ⟨howned, he⟩ := h
    have hloop : ∀ x, (step ⟨p, s⟩ x).map (fun t => (⟨.looping t.position, t.server, a, b⟩ : Life)) = some l' →
        l'.Sound := by
      intro x hx
      obtain ⟨t, ht, rfl⟩ := Option.map_eq_some_iff.1 hx
      exact ⟨howned.effect (step_effect ht), he⟩
    cases p <;> cases y <;> simp only [lifeStep, reduceCtorEq] at hst
    case left.stop order =>
      unfold stopCall at hst
      dsimp only at hst
      rw [if_neg fun hn => Bool.false_ne_true (hn.1.symm.trans howned.wsaInit)] at hst
      simp only [Option.ite_none_right_eq_some, Option.some.injEq] at hst
      obtain ⟨ho, rfl⟩ := hst
      exact ⟨howned.stop ho, he⟩
    all_goals exact hloop _ hst
  | stopping todo d =>
    obtain ⟨hdrain, he⟩ := h
    cases todo with
    | nil =>
      cases y <;> simp only [lifeStep, Option.some.injEq, reduceCtorEq] at hst
      subst hst
      exact sound_after hdrain.allClosed he
    | cons sock todo =>
      obtain ⟨⟨todo', s'⟩, hc, rfl⟩ := Option.map_eq_some_iff.1 hst
      exact ⟨hdrain.stopClient hc, he⟩
  | destroyed => cases hst

theorem reachable_sound {l : Life} (h : life.Reachable l) : l.Sound := by
  refine h.invariant Life.Sound ?_ fun l y l' _ hl _ hst => step_sound hl hst
  rintro _ rfl
  exact ⟨⟨rfl, rfl, AList.keys_empty, Closes.balanced_none⟩, rfl⟩

/-- `1` while a successful `WSAStartup` is in use. -/
def Place.inUse : Place → ℕ
  | .looping _ | .stopping _ _ => 1
  | .idle | .destroyed => 0

/-- The resources of the server are all accounted for. -/
structure Accounts (l : Life) : Prop where
  /-- Before `select`, the open sockets are the listeners and the keys of `m_clients`. -/
  top : l.place = .looping .wait → ∀ sock,
    l.server.IsOpen sock ↔ sock ∈ l.server.listenSockets ∨ sock ∈ l.server.clients
  /-- An iteration removes a client if and only if it has received the end of its connection. -/
  removed : l.place = .looping .wait → ∀ x is t, Tick ⟨.wait, l.server⟩ t x is →
    life.run l ((x :: is).map .loop) = some { l with server := t.server } ∧
      ∀ sock ∈ l.server.clients,
        (sock ∉ t.server.clients ↔ server.Occurs (ReceivesEnd sock) ⟨.wait, l.server⟩ (x :: is))
  /-- So too for a client that it has accepted. -/
  accepted : ∀ ready ls, l.place = .looping (.accepting ready ls) → ∀ is t,
    server.run ⟨.accepting ready ls, l.server⟩ is = some t →
    server.Along (fun s _ => s.position ≠ .wait) ⟨.accepting ready ls, l.server⟩ is → t.position = .wait →
      ∀ sock ∈ l.server.clients,
        (sock ∉ t.server.clients ↔ server.Occurs (ReceivesEnd sock) ⟨.accepting ready ls, l.server⟩ is)
  /-- No socket has been closed twice, and between two calls every socket has been closed. -/
  once : Closes.Once l.server.closes
  returned : l.place.inUse = 0 → ∀ sock n, l.server.closes sock = some n → n = 1
  cleaned : l.startups = l.cleanups + l.place.inUse
  /-- A further `Stop` changes nothing. -/
  again : l.place = .idle → ∀ order, life.step l (.stop order) = some l

theorem sound_balanced {l : Life} (h : l.Sound) :
    ∃ held, Closes.Balanced l.server.closes held ∧ (l.place.inUse = 0 → held = ∅) ∧
      l.startups = l.cleanups + l.place.inUse := by
  obtain ⟨place, s, a, b⟩ := l
  cases place with
  | idle => exact ⟨∅, h.1.balanced, fun _ => rfl, h.2⟩
  | looping p => exact ⟨_, h.1.balanced, fun h0 => absurd h0 Nat.one_ne_zero, h.2⟩
  | stopping todo d => exact ⟨_, h.1.balanced, fun h0 => absurd h0 Nat.one_ne_zero, h.2⟩
  | destroyed => exact ⟨∅, h.1.balanced, fun _ => rfl, h.2⟩

theorem sound_accounts {l : Life} (h : l.Sound) : Accounts l := by
  obtain ⟨held, hbal, hempty, hcleaned⟩ := sound_balanced h
  refine ⟨fun hp => ?_, fun hp x is t htick => ?_, fun ready ls _ is t hrun ha ht sock hsock => ?_, hbal.once,
    fun h0 => ?_, hcleaned, fun hp order => ?_⟩
  · obtain ⟨place, s, a, b⟩ := l
    obtain rfl : place = .looping .wait := hp
    exact fun sock => (h.1.balanced.isOpen sock).symm
  · have hrun : server.run ⟨.wait, l.server⟩ (x :: is) = some t := by
      obtain ⟨s₁, hst, hrun, -⟩ := htick.run
      exact Option.bind_eq_some_iff.2 ⟨s₁, hst, hrun⟩
    refine ⟨?_, fun sock hsock => (tick_spec htick hsock).2⟩
    rw [run_loop (s := ⟨.wait, l.server⟩) hp rfl hrun, htick.bottom, hp]
  · exact (rest_spec rfl hrun ha ht hsock).2
  · rw [hempty h0] at hbal
    exact Closes.balanced_empty.1 hbal
  · obtain ⟨place, s, a, b⟩ := l
    obtain rfl : place = .idle := hp
    exact stopCall_allClosed h.1

/-- **The life of the server is accounted for**, whatever is called in whatever order and whatever fails. -/
theorem accounted {l : Life} (h : life.Reachable l) : Accounts l := sound_accounts (reachable_sound h)

/-- The first of two candidates cannot be bound, the second listens as socket `4`; the client `5` is accepted and closes
its connection; then `select` fails and `Start` calls `Stop`. -/
def wholeLife : List Call :=
  [.start true [none, some [⟨some 3, false, true⟩, ⟨some 4, true, true⟩]],
    .loop (.ready [] [4]), .loop (.accepted 5), .loop (.refused .WSAEWOULDBLOCK), .loop (.loop [5]), .loop .done,
    .loop .done, .loop (.ready [5] [5]), .loop (.loop [5]), .loop (.recv .closed), .loop .done, .loop (.recv .closed),
    .loop .done, .loop (.failed (.other 10038)), .stop [], .done, .stop []]

theorem accounted_wholeLife :
    ∃ l, life.run ⟨.idle, .new, 0, 0⟩ wholeLife = some l ∧ l.place = .idle ∧ l.startups = 1 ∧
      l.server.closes 3 = some 1 ∧ l.server.closes 4 = some 1 ∧ l.server.closes 5 = some 1 ∧ Accounts l := by
  have hrun : (life.run ⟨.idle, .new, 0, 0⟩ wholeLife).map (fun l =>
      (l.place, l.startups, l.server.closes 3, l.server.closes 4, l.server.closes 5)) =
      some (.idle, 1, some 1, some 1, some 1) := by decide +kernel
  obtain ⟨l, hl, hq⟩ := Option.map_eq_some_iff.1 hrun
  simp only [Prod.mk.injEq] at hq
  obtain ⟨hp, ha, h3, h4, h5⟩ := hq
  exact ⟨l, hl, hp, ha, h3, h4, h5, accounted (System.reachable_of_run rfl hl)⟩

end TcpChat.Select
