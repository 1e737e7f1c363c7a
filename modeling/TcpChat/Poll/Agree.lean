import TcpChat.Poll.Registry
import TcpChat.Lib.TwoRuns
import Mathlib.Data.List.Induction

/-!
# Two states of the `poll` server

Two runs are compared while they go through the same calls with the same answers.

* `Agree` — two states are the same but for the queue of one session;
* `Apart` — and none of the descriptors at hand belongs to that session;
* `Apart.tracks_handleClient`, `tracks_handleListeners` — the calls keep these relations.
-/

namespace TcpChat.Poll

open TcpChat.Lib TcpChat.EventLoop

variable {a : ℕ} {s s' t : Server} {fd g : Fd} {l l' : List Answer} {c d : ClientSession}

/-! ## Calls in two runs -/

section calls

variable {R : Server → Server → Prop}

theorem tracks_gracefulShutdown (h : R s t) : Prog.Tracks R ClientSession.gracefulShutdown s t := by
  intro l
  induction l with
  | nil => exact Prog.tracksOn_halt h rfl rfl
  | cons x l ih =>
    cases x with
    | recv r =>
      cases r with
      | bytes b =>
        by_cases hb : b ≠ [] ∧ b.length ≤ recvBuf
        · exact ih.cons (if_pos hb) fun _ => if_pos hb
        · exact Prog.tracksOn_halt h (if_neg hb) (if_neg hb)
      | _ => exact Prog.tracksOn_ret (w := [_]) h rfl fun _ => rfl
    | _ => exact Prog.tracksOn_halt h rfl rfl

theorem tracks_read {this : ℕ} (hcast : ∀ s t b, R s t → R (broadcastMsg b this s) (broadcastMsg b this t))
    (h : R s t) : Prog.Tracks R (read this) s t := by
  intro l
  induction l generalizing s t with
  | nil => exact Prog.tracksOn_halt h rfl rfl
  | cons x l ih =>
    cases x with
    | recv r =>
      cases r with
      | bytes b =>
        by_cases hb : b ≠ [] ∧ b.length ≤ recvBuf
        · exact (ih (hcast s t b h)).cons (if_pos hb) fun _ => if_pos hb
        · exact Prog.tracksOn_halt h (if_neg hb) (if_neg hb)
      | _ => exact Prog.tracksOn_ret (w := [_]) h rfl fun _ => rfl
    | _ => exact Prog.tracksOn_halt h rfl rfl

theorem tracks_acceptAll (hopen : ∀ s t cs, R s t → (t.IsOpen cs ↔ s.IsOpen cs))
    (hemplace : ∀ s t cs, R s t → ¬ s.IsOpen cs → R (s.emplace cs) (t.emplace cs)) (h : R s t) :
    Prog.Tracks R acceptAll s t := by
  intro l
  induction l generalizing s t with
  | nil => exact Prog.tracksOn_halt h rfl rfl
  | cons x l ih =>
    cases x with
    | accepted cs =>
      by_cases ho : s.IsOpen cs
      · exact Prog.tracksOn_halt h (if_pos ho) (if_pos ((hopen s t cs h).2 ho))
      · exact (ih (hemplace s t cs h ho)).cons (if_neg ho) fun _ => if_neg (mt (hopen s t cs h).1 ho)
    | refused e => exact Prog.tracksOn_ret (w := [_]) h rfl fun _ => rfl
    | _ => exact Prog.tracksOn_halt h rfl rfl

theorem write_nil (hq : s.sendQueue fd = []) (l : List Answer) : write fd s l = .ret true s l := by
  unfold write ClientSession.write
  simp only [hq]

/-- `Write` with a message at the front of the queue. -/
theorem write_cons {msg : List UInt8} {rest : List (List UInt8)} (hq : s.sendQueue fd = msg :: rest) (x : Answer)
    (l : List Answer) : write fd s (x :: l) =
      match x with
      | .send (.count n) =>
        if n = 0 ∨ msg.length < n then .halt .blocked s
        else if n < msg.length then .ret true (s.modify fd (·.accepted n)) l
        else write fd (s.modify fd (·.accepted n)) l
      | .send .closed => .ret false s l
      | .send (.error e) => if e = .EPIPE then .halt .killed s else .ret e.again s l
      | _ => .halt .blocked s := by
  have hflags : (0 : UInt32) &&& msgNoSignal = 0 := by decide
  unfold write
  conv_lhs => unfold ClientSession.write
  cases x with
  | send r => cases r <;> simp only [hq, hflags, and_true]
  | _ => simp only [hq]

theorem tracks_write (hqueue : ∀ s t, R s t → t.sendQueue fd = s.sendQueue fd)
    (haccepted : ∀ s t n, R s t → R (s.modify fd (·.accepted n)) (t.modify fd (·.accepted n))) (h : R s t) :
    Prog.Tracks R (write fd) s t := by
  intro l
  induction l generalizing s t with
  | nil =>
    have hq := hqueue s t h
    cases hs : s.sendQueue fd with
    | nil => exact Prog.tracksOn_ret (w := []) h (write_nil hs _) (write_nil (hq.trans hs))
    | cons msg rest =>
      refine Prog.tracksOn_halt (e := .blocked) h ?_ ?_
      · unfold write ClientSession.write
        simp only [hs]
      · unfold write ClientSession.write
        simp only [hq, hs]
  | cons x l ih =>
    have hq := hqueue s t h
    cases hs : s.sendQueue fd with
    | nil => exact Prog.tracksOn_ret (w := []) h (write_nil hs _) (write_nil (hq.trans hs))
    | cons msg rest =>
      have hwrite := write_cons hs x
      have hwrite' := write_cons (hq.trans hs) x
      cases x with
      | send r =>
        cases r with
        | count n =>
          by_cases hn : n = 0 ∨ msg.length < n
          · exact Prog.tracksOn_halt h ((hwrite l).trans (if_pos hn)) ((hwrite' l).trans (if_pos hn))
          by_cases hlt : n < msg.length
          · refine Prog.tracksOn_ret (w := [_]) (a := true) (haccepted s t n h) ((hwrite l).trans ?_) fun k =>
              (hwrite' k).trans ?_
            · simp only [if_neg hn, if_pos hlt]
            · simp only [if_neg hn, if_pos hlt]
          · refine (ih (haccepted s t n h)).cons ((hwrite l).trans ?_) fun k => (hwrite' k).trans ?_
            · simp only [if_neg hn, if_neg hlt]
            · simp only [if_neg hn, if_neg hlt]
        | closed => exact Prog.tracksOn_ret (w := [_]) h (hwrite l) hwrite'
        | error e =>
          by_cases he : e = .EPIPE
          · exact Prog.tracksOn_halt h ((hwrite l).trans (if_pos he)) ((hwrite' l).trans (if_pos he))
          · exact Prog.tracksOn_ret (w := [_]) h ((hwrite l).trans (if_neg he)) fun k => (hwrite' k).trans (if_neg he)
      | _ => exact Prog.tracksOn_halt h (hwrite l) (hwrite' l)

end calls

/-! ## Two states -/

/-- The sessions are the same, but for the queue if it is the session `a`. -/
structure Similar (a : ℕ) (c d : ClientSession) : Prop where
  id : d.id = c.id
  socket : d.socket = c.socket
  since : d.since = c.since
  same : c.id ≠ a → d = c

/-- The states are the same, but for the queue of the session `a`. -/
structure Agree (a : ℕ) (s t : Server) : Prop where
  running : t.running = s.running
  listenSockets : t.listenSockets = s.listenSockets
  closes : t.closes = s.closes
  count : t.count = s.count
  log : t.log = s.log
  keys : t.clients.keys = s.clients.keys
  clients : ∀ fd c, s.clients.lookup fd = some c → ∃ d, t.clients.lookup fd = some d ∧ Similar a c d

theorem Similar.refl (a : ℕ) (c : ClientSession) : Similar a c c := ⟨rfl, rfl, rfl, fun _ => rfl⟩

theorem Agree.refl (a : ℕ) (s : Server) : Agree a s s :=
  ⟨rfl, rfl, rfl, rfl, rfl, rfl, fun _ c hc => ⟨c, hc, .refl a c⟩⟩

theorem Similar.postSend (h : Similar a c d) (msg : List UInt8) : Similar a (c.postSend msg) (d.postSend msg) where
  id := by rw [ClientSession.postSend_id, ClientSession.postSend_id, h.id]
  socket := by rw [postSend_socket, postSend_socket, h.socket]
  since := by rw [ClientSession.postSend_since, ClientSession.postSend_since, h.since]
  same hne := by rw [h.same (ClientSession.postSend_id ▸ hne)]

theorem Similar.accepted (h : Similar a c d) (n : ℕ) : Similar a (c.accepted n) (d.accepted n) where
  id := by rw [ClientSession.accepted_id, ClientSession.accepted_id, h.id]
  socket := by rw [ClientSession.accepted_socket, ClientSession.accepted_socket, h.socket]
  since := by rw [ClientSession.accepted_since, ClientSession.accepted_since, h.since]
  same hne := by rw [h.same (ClientSession.accepted_id ▸ hne)]

theorem Similar.stop (h : Similar a c d) : Similar a { c with socket := none } { d with socket := none } :=
  ⟨h.id, rfl, h.since, fun hne => by rw [h.same hne]⟩

namespace Agree

variable (h : Agree a s t)

include h

theorem mem : fd ∈ t.clients ↔ fd ∈ s.clients := by
  rw [AList.mem_keys, AList.mem_keys, h.keys]

theorem lookup_none (hc : s.clients.lookup fd = none) : t.clients.lookup fd = none := by
  rw [AList.lookup_eq_none] at hc ⊢
  exact mt h.mem.1 hc

/-- Both sessions change alike. -/
theorem update {s' t' : Server} {f : Fd → ClientSession → ClientSession}
    (hf : ∀ fd c d, Similar a c d → Similar a (f fd c) (f fd d))
    (hs : s' = { s with clients := s.clients.update f, log := s'.log })
    (ht : t' = { t with clients := t.clients.update f, log := t'.log }) (hlog : t'.log = s'.log) : Agree a s' t' := by
  rw [hs, ht]
  refine ⟨h.running, h.listenSockets, h.closes, h.count, hlog, ?_, fun fd c hc => ?_⟩
  · dsimp only
    rw [Table.keys_update, Table.keys_update, h.keys]
  · dsimp only at hc ⊢
    rw [Table.lookup_update, Option.map_eq_some_iff] at hc
    obtain ⟨c₀, hc₀, rfl⟩ := hc
    obtain ⟨d₀, hd₀, hsim⟩ := h.clients fd c₀ hc₀
    refine ⟨f fd d₀, ?_, hf fd c₀ d₀ hsim⟩
    rw [Table.lookup_update, hd₀, Option.map_some]

theorem modify {f : ClientSession → ClientSession} (hf : ∀ c d, Similar a c d → Similar a (f c) (f d)) :
    Agree a (s.modify fd f) (t.modify fd f) := by
  refine h.update (f := fun k c => if k = fd then f c else c) (fun k c d hsim => ?_) rfl rfl h.log
  split
  · exact hf c d hsim
  · exact hsim

theorem broadcastMsg (msg : List UInt8) (sender : ℕ) :
    Agree a (Poll.broadcastMsg msg sender s) (Poll.broadcastMsg msg sender t) := by
  refine h.update (f := fun _ c => if c.id ≠ sender then c.postSend msg else c) (fun _ c d hsim => ?_) rfl rfl ?_
  · rw [hsim.id]
    split
    · exact hsim.postSend msg
    · exact hsim
  · exact congrArg (· ++ [⟨sender, msg⟩]) h.log

theorem close : Agree a (s.close fd) (t.close fd) where
  running := h.running
  listenSockets := h.listenSockets
  closes := by
    rw [Server.close, Server.close, h.closes]
  count := h.count
  log := h.log
  keys := h.keys
  clients := h.clients

theorem erase : Agree a (s.erase fd) (t.erase fd) where
  running := h.running
  listenSockets := h.listenSockets
  closes := h.closes
  count := h.count
  log := h.log
  keys := by
    rw [Server.erase, Server.erase, AList.keys_erase, AList.keys_erase, h.keys]
  clients g c hc := by
    obtain ⟨hg, hc⟩ := Table.lookup_erase_eq_some.1 hc
    obtain ⟨d, hd, hsim⟩ := h.clients g c hc
    exact ⟨d, Table.lookup_erase_eq_some.2 ⟨hg, hd⟩, hsim⟩

theorem dropClient : Agree a (dropClient fd s) (dropClient fd t) :=
  ((h.close.modify fun _ _ => Similar.stop).erase).close

theorem emplace {cs : Fd} : Agree a (s.emplace cs) (t.emplace cs) where
  running := h.running
  listenSockets := h.listenSockets
  closes := by
    rw [Server.emplace, Server.emplace, h.closes]
  count := congrArg (· + 1) h.count
  log := h.log
  keys := by
    simp only [Server.emplace, Table.emplace, h.mem]
    split
    · exact h.keys
    · rw [AList.keys_insert, AList.keys_insert, h.keys]
  clients g c hc := by
    simp only [Server.emplace, Table.emplace, h.mem, h.count, h.log] at hc ⊢
    split at hc
    next hin =>
      rw [if_pos hin]
      exact h.clients g c hc
    next hin =>
      rw [if_neg hin]
      by_cases hg : g = cs
      · subst hg
        rw [AList.lookup_insert] at hc ⊢
        exact ⟨c, hc, .refl a c⟩
      · rw [AList.lookup_insert_ne hg] at hc ⊢
        exact h.clients g c hc

end Agree

/-! ## The other clients -/

/-- The states agree, and the session `a` has none of the descriptors `fds`. -/
structure Apart (a : ℕ) (fds : List Fd) (s t : Server) : Prop where
  agree : Agree a s t
  foreign : ∀ fd ∈ fds, ∀ c, s.clients.lookup fd = some c → c.id ≠ a

namespace Apart

variable {fds : List Fd} (h : Apart a fds s t)

include h

theorem mono {fds' : List Fd} (hsub : fds' ⊆ fds) : Apart a fds' s t := ⟨h.agree, fun fd hfd => h.foreign fd (hsub hfd)⟩

theorem lookup (hfd : fd ∈ fds) : t.clients.lookup fd = s.clients.lookup fd := by
  cases hc : s.clients.lookup fd with
  | none => exact h.agree.lookup_none hc
  | some c =>
    obtain ⟨d, hd, hsim⟩ := h.agree.clients fd c hc
    rw [hd, hsim.same (h.foreign fd hfd c hc)]

theorem socket : (t.clients.lookup fd).bind (·.socket) = (s.clients.lookup fd).bind (·.socket) := by
  cases hc : s.clients.lookup fd with
  | none => rw [h.agree.lookup_none hc]
  | some c =>
    obtain ⟨d, hd, hsim⟩ := h.agree.clients fd c hc
    rw [hd]
    exact hsim.socket

theorem modify {f : ClientSession → ClientSession} (hid : ∀ c, (f c).id = c.id)
    (hf : ∀ c d, Similar a c d → Similar a (f c) (f d)) : Apart a fds (s.modify fd f) (t.modify fd f) := by
  refine ⟨h.agree.modify hf, fun g hg c hc => ?_⟩
  rw [Server.modify, Table.lookup_modify, Option.map_eq_some_iff] at hc
  obtain ⟨c₀, hc₀, rfl⟩ := hc
  have hne := h.foreign g hg c₀ hc₀
  split
  · rwa [hid]
  · exact hne

theorem broadcastMsg (msg : List UInt8) (sender : ℕ) :
    Apart a fds (Poll.broadcastMsg msg sender s) (Poll.broadcastMsg msg sender t) := by
  refine ⟨h.agree.broadcastMsg msg sender, fun g hg c hc => ?_⟩
  rw [Poll.broadcastMsg, Table.lookup_update, Option.map_eq_some_iff] at hc
  obtain ⟨c₀, hc₀, rfl⟩ := hc
  have hne := h.foreign g hg c₀ hc₀
  split
  · rwa [ClientSession.postSend_id]
  · exact hne

theorem close : Apart a fds (s.close fd) (t.close fd) := ⟨h.agree.close, h.foreign⟩

theorem erase : Apart a fds (s.erase fd) (t.erase fd) :=
  ⟨h.agree.erase, fun g hg c hc => h.foreign g hg c (Table.lookup_erase_eq_some.1 hc).2⟩

theorem tracks_stop_session (fd : Fd) : Prog.Tracks (Apart a fds) (ClientSession.stop fd) s t := by
  refine Prog.tracks_get (by rw [h.socket]) ?_
  split
  · exact Prog.tracks_pure () h
  · refine (tracks_gracefulShutdown h).bind fun _ s t h => (Prog.tracks_modify h.close).bind fun _ s t h => ?_
    exact Prog.tracks_modify (h.modify (fun _ => rfl) fun _ _ => Similar.stop)

theorem tracks_closeClient (fd : Fd) : Prog.Tracks (Apart a fds) (closeClient fd) s t := by
  have hmem : fd ∈ t.clients ↔ fd ∈ s.clients := h.agree.mem
  refine Prog.tracks_get (by simp only [hmem]) (Prog.Tracks.bind ?_ fun _ s t h => Prog.tracks_modify h.close)
  refine Prog.tracks_ite ((h.tracks_stop_session fd).bind fun _ s t h => ?_) (Prog.tracks_pure () h)
  exact Prog.tracks_modify h.erase

theorem tracks_handleClient {pfd : Pollfd} (hfd : pfd.fd ∈ fds) :
    Prog.Tracks (Apart a fds) (handleClient pfd) s t := by
  refine Prog.tracks_ite (h.tracks_closeClient _) (Prog.tracks_get (by rw [h.lookup hfd]) ?_)
  split
  · exact Prog.tracks_pure () h
  next c hc =>
    refine (Prog.tracks_ite ?_ (Prog.tracks_pure true h)).bind fun readable s t h =>
      Prog.tracks_ite ?_ (h.tracks_closeClient _)
    · exact tracks_read (fun _ _ b h => h.broadcastMsg b c.id) h
    · refine (Prog.tracks_ite ?_ (Prog.tracks_pure true h)).bind fun writable s t h =>
        Prog.tracks_ite (Prog.tracks_pure () h) (h.tracks_closeClient _)
      refine tracks_write (fun s t h => ?_) (fun s t n h => ?_) h
      · rw [Server.sendQueue, Server.sendQueue, h.lookup hfd]
      · exact h.modify (fun _ => ClientSession.accepted_id) fun _ _ hsim => hsim.accepted n

theorem tracks_handleClients {pfds : List Pollfd} (hfds : ∀ pfd ∈ pfds, pfd.fd ∈ fds) :
    Prog.Tracks (Apart a fds) (handleClients pfds) s t :=
  Prog.tracks_each (fun pfd hp _ _ h => h.tracks_handleClient (hfds pfd hp)) h

end Apart

theorem tracks_handleListeners {pfds : List Pollfd} (h : Agree a s t) :
    Prog.Tracks (Agree a) (handleListeners pfds) s t := by
  induction pfds generalizing s t with
  | nil => exact Prog.tracks_pure () h
  | cons pfd pfds ih =>
    refine Prog.tracks_ite (Prog.tracks_modify ?_) (Prog.tracks_ite (Prog.Tracks.bind ?_ fun _ s t h => ih h) (ih h))
    · exact ⟨rfl, h.listenSockets, h.closes, h.count, h.log, h.keys, h.clients⟩
    · refine tracks_acceptAll (fun s t cs h => ?_) (fun s t cs h _ => h.emplace) h
      rw [Server.IsOpen, Server.IsOpen, h.closes]

theorem tracks_stop (h : Agree a s t) : Prog.Tracks (Agree a) stop s t := by
  refine Prog.tracks_get (by rw [h.running, h.listenSockets, h.keys]) ?_
  refine Prog.tracks_ite (Prog.tracks_pure () h) ?_
  refine (Prog.tracks_each (fun fd _ s t h => ?_) h).bind fun _ s t h => ?_
  · have hsub := fun {s t : Server} (h : Agree a s t) => (⟨h, fun _ hfd => by cases hfd⟩ : Apart a [] s t)
    exact ((hsub h).tracks_stop_session fd).imp fun _ _ h => h.agree
  refine (Prog.tracks_modify ?_).bind fun _ s t h => ?_
  · exact ⟨h.running, h.listenSockets, h.closes, h.count, h.log, rfl, fun _ c hc => ⟨c, hc, .refl a c⟩⟩
  refine (Prog.tracks_each (fun fd _ s t h => Prog.tracks_modify h.close) h).bind fun _ s t h => Prog.tracks_modify ?_
  exact ⟨rfl, rfl, h.closes, h.count, h.log, h.keys, h.clients⟩

end TcpChat.Poll
