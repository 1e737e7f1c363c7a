import TcpChat.EventLoop.Closing
import TcpChat.Poll.Registry
import TcpChat.Epoll.Wiring

/-!
# How often the event-loop servers close a descriptor

`CloseClient` closes the descriptor of its client twice: the session's `Stop` does, and then `SafeCloseSocket` on the
number that the caller has passed.  `ChatServer::Stop` closes once.

* `closeClient_twice`, for both servers;
* `Spared` — no client of the iteration is closed by its handler;
* `closedOnce_of_spared` — in a run of such iterations every descriptor is closed exactly once.
-/

namespace TcpChat

open TcpChat.Lib TcpChat.EventLoop

/-! ## The `poll` server -/

namespace Poll

variable {s s' : Server} {fd : Fd} {l l' : List Answer}

/-- **`CloseClient` closes the descriptor of its client twice.** -/
theorem closeClient_twice {c : ClientSession} {u : Unit} (hc : s.clients.lookup fd = some c)
    (hsock : c.socket = some fd) (ho : s.IsOpen fd) (h : closeClient fd s l = .ret u s' l') :
    s'.closes fd = some 2 := by
  rw [closeClient_apply hc hsock] at h
  rcases gracefulShutdown_spec s l with ⟨k, hk⟩ | hk
  · rw [hk] at h
    cases h
    have hcloses : (dropClient fd s).closes = Closes.close (Closes.close s.closes fd) fd := rfl
    rw [hcloses, Closes.close_self, Closes.close_self, ho]
    rfl
  · rw [hk] at h
    cases h

/-- No client's handler closes its client: its entry reports no error, and no `recv` or `send` reports that the
connection is closed or lost. -/
def Spared (s : State) : Input → Prop
  | .ready order revents answers =>
    (∀ pfd ∈ (polled s.server order revents).drop s.server.listenSockets.length,
      pfd.revents &&& (pollErr ||| pollHup ||| pollNval) = 0) ∧ ∀ a ∈ answers, ¬ a.Ends 0
  | _ => True

instance (s : State) : DecidablePred (Spared s)
  | .ready _ _ _ => inferInstanceAs (Decidable (_ ∧ _))
  | .interrupted | .failed | .timeout | .stop _ => isTrue trivial

theorem serving_broadcastMsg (msg : List UInt8) (sender : ℕ) (h : Serving s) : Serving (broadcastMsg msg sender s) := by
  refine h.of_map (fun _ c => ?_) (fun _ => Table.lookup_update _) rfl rfl
  split
  · exact postSend_socket
  · rfl

theorem keepsIf_acceptAll : Prog.KeepsIf (¬ Answer.Ends 0 ·) Serving acceptAll fun _ => True := by
  intro s l h hl
  fun_induction acceptAll s l with
  | case2 s cs l ho ih => exact ih (h.emplace ho) fun r hr => hl r (List.mem_cons_of_mem _ hr)
  | case3 s e l => exact ⟨h, trivial, fun r hr => hl r (List.mem_cons_of_mem _ hr)⟩
  | _ => exact h

theorem keepsIf_handleListeners (pfds : List Pollfd) :
    Prog.KeepsIf (¬ Answer.Ends 0 ·) Serving (handleListeners pfds) fun _ => True := by
  induction pfds with
  | nil => exact Prog.keepsIf_pure trivial
  | cons pfd pfds ih =>
    unfold handleListeners
    split
    · exact Prog.keepsIf_modify fun s h => h.halt
    split
    · exact keepsIf_acceptAll.bind fun _ _ => ih
    · exact ih

theorem keepsIf_handleClient {pfd : Pollfd} (hpfd : pfd.revents &&& (pollErr ||| pollHup ||| pollNval) = 0) :
    Prog.KeepsIf (¬ Answer.Ends 0 ·) Serving (handleClient pfd) fun _ => True := by
  have hread : ∀ this, Prog.KeepsIf (¬ Answer.Ends 0 ·) Serving (read this) (· = true) := fun this =>
    keepsIf_read fun s b h => serving_broadcastMsg b this h
  have hwrite : Prog.KeepsIf (¬ Answer.Ends 0 ·) Serving (write pfd.fd) (· = true) :=
    keepsIf_write fun s n h => h.modify fun c => ClientSession.accepted_socket
  unfold handleClient
  rw [if_neg (not_not.2 hpfd)]
  refine Prog.keepsIf_get.bind fun s _ => ?_
  split
  · exact Prog.keepsIf_pure trivial
  next sess _ =>
    have hreadable : Prog.KeepsIf (¬ Answer.Ends 0 ·) Serving
        (if pfd.revents &&& pollIn ≠ 0 then read sess.id else pure true) (· = true) := by
      split
      · exact hread _
      · exact Prog.keepsIf_pure rfl
    have hwritable : Prog.KeepsIf (¬ Answer.Ends 0 ·) Serving
        (if pfd.revents &&& pollOut ≠ 0 then write pfd.fd else pure true) (· = true) := by
      split
      · exact hwrite
      · exact Prog.keepsIf_pure rfl
    refine hreadable.bind fun readable hr => ?_
    rw [if_pos hr]
    refine hwritable.bind fun writable hw => ?_
    rw [if_pos hw]
    exact Prog.keepsIf_pure trivial

/-- `ChatServer::Stop` -/
theorem tidy_stop (h : Serving s) (l : List Answer) : Tidy (.of (fun _ => .stopped) (stop s l)) := by
  rw [stop, Prog.bind_apply]
  simp only [Prog.get]
  split
  next hguard => exact h.balanced_empty hguard.2.1 hguard.2.2
  next =>
    have hall := closeAll_spec (fun s => { s with listenSockets := [], running := false }) (fun _ => rfl)
      h.toOwning l
    revert hall
    generalize (do
      Prog.each ClientSession.stop s.clients.keys
      Prog.modify fun s => { s with clients := ∅ }
      Prog.each (fun fd => Prog.modify (Server.close · fd)) s.listenSockets
      Prog.modify fun s => { s with listenSockets := [], running := false } : Prog Server Answer Unit) s l = o
    intro hall
    cases o with
    | ret u t k => exact hall
    | halt e t => exact hall

theorem tidy_step {s s' : State} {x : Input} (h : Tidy s) (hx : Spared s x) (hst : step s x = some s') : Tidy s' := by
  obtain ⟨phase, s⟩ := s
  rcases step_cases hst with ⟨rfl, ⟨-, rfl⟩ | ⟨-, rfl⟩ | ⟨order, revents, answers, rfl, -, rfl⟩⟩ |
    ⟨rfl, answers, -, rfl⟩
  · exact h
  · exact h
  · have htick : Prog.KeepsIf (¬ Answer.Ends 0 ·) Serving (tick s order revents) fun _ => True :=
      (keepsIf_handleListeners _).bind fun _ _ => Prog.keepsIf_each fun pfd hp => keepsIf_handleClient (hx.1 pfd hp)
    exact tidy_of (htick.state h hx.2)
  · exact tidy_stop h answers

end Poll

/-! ## The `epoll` server -/

namespace Epoll

variable {s s' : Server} {fd : Fd} {l l' : List Answer}

/-- **`CloseClient` closes the descriptor of its client twice.** -/
theorem closeClient_twice {c : ClientSession} {u : Unit} (hc : s.clients.lookup fd = some c)
    (hsock : c.socket = some fd) (ho : s.IsOpen fd) (h : closeClient fd s l = .ret u s' l') :
    s'.closes fd = some 2 := by
  obtain ⟨t, t', k, hget, h⟩ := Prog.bind_ret.1 h
  obtain ⟨rfl, rfl, rfl⟩ := Prog.get_ret.1 hget
  obtain ⟨u', t, k, hstop, h⟩ := Prog.bind_ret.1 h
  obtain ⟨rfl, -⟩ := Prog.modify_ret.1 h
  rw [if_pos (mem_clients.2 ⟨c, hc⟩)] at hstop
  obtain ⟨u'', t', k', hcall, herase⟩ := Prog.bind_ret.1 hstop
  obtain ⟨rfl, -⟩ := Prog.modify_ret.1 herase
  have ht' := ClientSession.stop_ret hcall
  rw [hc, Option.bind_some, hsock] at ht'
  subst ht'
  have hcloses : ((epollCtlDel (((s.close fd).modify fd fun c =>
      { c with socket := none }).erase fd) fd).close fd).closes =
      Closes.close (Closes.close s.closes fd) fd := rfl
  rw [hcloses, Closes.close_self, Closes.close_self, ho]
  rfl

/-- No client's handler closes its client: its event reports no error, and no `recv` or `send` reports that the
connection is closed or lost. -/
def Spared (s : State) : Input → Prop
  | .events batch => ∀ e ∈ batch, e.fd ∉ s.server.listenSockets →
    e.events &&& (epollErr ||| epollHup ||| epollRdHup) = 0 ∧ ∀ a ∈ e.answers, ¬ a.Ends msgNoSignal
  | _ => True

instance (s : State) : DecidablePred (Spared s)
  | .events batch => inferInstanceAs (Decidable (∀ e ∈ batch, _ → _ ∧ _))
  | .interrupted | .failed | .stop _ => isTrue trivial

/-- The server runs, with these listeners. -/
def ServingOn (ls : List Fd) (s : Server) : Prop := Serving s ∧ s.listenSockets = ls

variable {ls : List Fd}

theorem ServingOn.of_map {s' : Server} (h : ServingOn ls s) {f : Fd → ClientSession → ClientSession}
    (hf : ∀ fd c, (f fd c).socket = c.socket) (hc : ∀ g, s'.clients.lookup g = (s.clients.lookup g).map (f g))
    (hcloses : s'.closes = s.closes) (hls : s'.listenSockets = s.listenSockets) : ServingOn ls s' :=
  ⟨h.1.of_map hf hc hcloses hls, hls.trans h.2⟩

/-- A change that is not one of the sessions. -/
theorem ServingOn.of_clients {s' : Server} (h : ServingOn ls s) (hc : s'.clients = s.clients)
    (hcloses : s'.closes = s.closes)
    (hls : s'.listenSockets = s.listenSockets) : ServingOn ls s' :=
  h.of_map (fun _ _ => rfl) (fun _ => by rw [hc]; exact Option.map_id'.symm) hcloses hls

theorem servingOn_broadcastMsg (msg : List UInt8) (sender : ℕ) (h : ServingOn ls s) :
    ServingOn ls (broadcastMsg msg sender s) := by
  obtain ⟨hsame, hspec⟩ := broadcastMsg_spec s msg sender
  exact h.of_map (fun _ c => castClient_socket c) (fun g => (hspec g).1) hsame.closes hsame.listenSockets

theorem servingOn_modClientWritable (fd : Fd) (h : ServingOn ls s) : ServingOn ls (modClientWritable fd s) := by
  have hsame := sameSockets_modClientWritable s fd
  exact h.of_clients clients_modClientWritable hsame.closes hsame.listenSockets

theorem servingOn_addClientToEpoll (fd : Fd) (h : ServingOn ls s) : ServingOn ls (addClientToEpoll fd s) := by
  unfold addClientToEpoll epollCtlAdd
  repeat' split
  · exact h
  · exact h.of_clients rfl rfl rfl
  · exact h

theorem keeps_handleListeners (event : UInt32) : Prog.Keeps (ServingOn ls) (handleListeners event) := by
  unfold handleListeners
  split
  · exact Prog.keeps_modify fun s h => h.of_clients rfl rfl rfl
  split
  · exact keeps_acceptAll fun s cs ho h => servingOn_addClientToEpoll cs ⟨h.1.emplace ho, h.2⟩
  · exact Prog.keeps_pure ()

theorem keepsIf_handleClients {sfd : Fd} {event : UInt32}
    (hevent : event &&& (epollErr ||| epollHup ||| epollRdHup) = 0) :
    Prog.KeepsIf (¬ Answer.Ends msgNoSignal ·) (ServingOn ls) (handleClients sfd event) fun _ => True := by
  have hread : ∀ this, Prog.KeepsIf (¬ Answer.Ends msgNoSignal ·) (ServingOn ls) (read this) (· = true) := fun this =>
    keepsIf_read fun s b h => servingOn_broadcastMsg b this h
  have hwrite : Prog.KeepsIf (¬ Answer.Ends msgNoSignal ·) (ServingOn ls) (write sfd) (· = true) :=
    keepsIf_write fun s n h => ⟨h.1.modify fun c => ClientSession.accepted_socket, h.2⟩
  unfold handleClients
  rw [if_neg (not_not.2 hevent)]
  refine Prog.keepsIf_get.bind fun s _ => ?_
  split
  · exact Prog.keepsIf_pure trivial
  next sess _ =>
    have hreadable : Prog.KeepsIf (¬ Answer.Ends msgNoSignal ·) (ServingOn ls)
        (if event &&& epollIn ≠ 0 then read sess.id else pure true) (· = true) := by
      split
      · exact hread _
      · exact Prog.keepsIf_pure rfl
    refine hreadable.bind fun readable hr => ?_
    rw [if_pos hr]
    split
    · refine hwrite.bind fun writable hw => ?_
      rw [if_pos hw]
      exact Prog.keepsIf_modify fun s h => servingOn_modClientWritable sfd h
    · exact Prog.keepsIf_pure trivial

/-- The loop over the events of a batch. -/
theorem servingOn_handleEvents {batch : List Event} (h : ServingOn ls s)
    (hbatch : ∀ e ∈ batch, e.fd ∉ ls →
      e.events &&& (epollErr ||| epollHup ||| epollRdHup) = 0 ∧ ∀ a ∈ e.answers, ¬ a.Ends msgNoSignal) :
    ServingOn ls (handleEvents batch s).state := by
  induction batch generalizing s with
  | nil => exact h
  | cons e batch ih =>
    have hevent : ServingOn ls (handleEvent e s).state := by
      unfold handleEvent
      split
      · exact keeps_handleListeners e.events s e.answers h
      next hfd =>
        obtain ⟨hflags, hanswers⟩ := hbatch e List.mem_cons_self (h.2 ▸ hfd)
        exact (keepsIf_handleClients hflags).state h hanswers
    rw [handleEvents]
    cases he : handleEvent e s with
    | ret u t k =>
      rw [he] at hevent
      exact ih hevent fun e' he' => hbatch e' (List.mem_cons_of_mem e he')
    | halt e' t =>
      rw [he] at hevent
      exact hevent

/-- `ChatServer::Stop` -/
theorem tidy_stop (h : Serving s) (l : List Answer) : Tidy (.of (fun _ => .stopped) (stop s l)) := by
  rw [stop, Prog.bind_apply]
  simp only [Prog.get]
  split
  next hguard => exact h.balanced_empty hguard.2.1 hguard.2.2
  next =>
    have hall := closeAll_spec
      (fun s => { s with listenSockets := [], interest := fun _ => none, running := false }) (fun _ => rfl)
      h.toOwning l
    revert hall
    generalize (do
      Prog.each ClientSession.stop s.clients.keys
      Prog.modify fun s => { s with clients := ∅ }
      Prog.each (fun fd => Prog.modify (Server.close · fd)) s.listenSockets
      Prog.modify fun s => { s with listenSockets := [], interest := fun _ => none, running := false } :
        Prog Server Answer Unit) s l = o
    intro hall
    cases o with
    | ret u t k => exact hall
    | halt e t => exact hall

theorem tidy_step {s s' : State} {x : Input} (h : Tidy s) (hx : Spared s x) (hst : step s x = some s') : Tidy s' := by
  obtain ⟨phase, s⟩ := s
  cases phase with
  | loop =>
    cases x with
    | interrupted => exact Option.some.inj hst ▸ h
    | failed => exact Option.some.inj hst ▸ h
    | events batch =>
      simp only [step, Option.ite_none_right_eq_some, Option.some.injEq] at hst
      obtain ⟨-, rfl⟩ := hst
      have hreport : ServingOn s.listenSockets (report s (batch.map Event.fd)) :=
        ServingOn.of_clients ⟨h, rfl⟩ rfl rfl rfl
      exact tidy_of (servingOn_handleEvents hreport hx).1
    | stop answers => cases hst
  | stopping =>
    cases x with
    | stop answers => exact Option.some.inj hst ▸ tidy_stop h answers
    | _ => cases hst
  | stopped => cases x <;> cases hst
  | halted e => cases x <;> cases hst

end Epoll

/-! ## Both servers -/

/-- **Each client descriptor is closed exactly once**, by the `poll` and by the `epoll` server, in every run in which no
client is closed by its handler, started with different listeners; and `CloseClient` of a client closes its descriptor
twice. -/
theorem closedOnce_of_spared (ls : List Fd) (hls : ls.Nodup) :
    (∀ s, (Poll.server.startedIn ⟨.loop, .start ls fun _ => none⟩).Reach Poll.Spared s → ClosedOnce s) ∧
    (∀ s, (Epoll.server.startedIn (Epoll.start ls)).Reach Epoll.Spared s → ClosedOnce s) ∧
    ∀ (s : Server) (fd : Fd) (c : ClientSession) (l : List Answer), s.clients.lookup fd = some c →
      c.socket = some fd → s.IsOpen fd → ∀ u s' l',
        (Poll.closeClient fd s l = .ret u s' l' → s'.closes fd = some 2) ∧
        (Epoll.closeClient fd s l = .ret u s' l' → s'.closes fd = some 2) := by
  refine ⟨fun s h => ?_, fun s h => ?_, fun s fd c l hc hsock ho u s' l' => ⟨fun h => ?_, fun h => ?_⟩⟩
  · have htidy : Tidy s := by
      refine h.invariant Tidy ?_ fun s x s' _ ih hx hst => Poll.tidy_step ih hx hst
      rintro s rfl
      exact serving_start hls _
    exact htidy.closedOnce
  · have htidy : Tidy s := by
      refine h.invariant Tidy ?_ fun s x s' _ ih hx hst => Epoll.tidy_step ih hx hst
      rintro s rfl
      exact serving_start hls _
    exact htidy.closedOnce
  · exact Poll.closeClient_twice hc hsock ho h
  · exact Epoll.closeClient_twice hc hsock ho h

/-- A client is accepted, the wait fails, and `Stop` is called. -/
def pollStopping : List Poll.Input :=
  [.ready [] [Poll.pollIn] [.accepted 5, .refused .EAGAIN], .failed, .stop [.recv .closed]]

def epollStopping : List Epoll.Input :=
  [.events [⟨3, epollIn, [.accepted 5, .refused .EAGAIN]⟩], .failed, .stop [.recv .closed]]

theorem closedOnce_of_spared_stop :
    (Poll.server.run ⟨.loop, .start [3] fun _ => none⟩ pollStopping).map (fun s => s.phase) = some .stopped ∧
    (∀ s ∈ Poll.server.run ⟨.loop, .start [3] fun _ => none⟩ pollStopping, ClosedOnce s) ∧
    (Epoll.server.run (Epoll.start [3]) epollStopping).map (fun s => s.phase) = some .stopped ∧
    ∀ s ∈ Epoll.server.run (Epoll.start [3]) epollStopping, ClosedOnce s := by
  obtain ⟨hpoll, hepoll, -⟩ := closedOnce_of_spared [3] (List.nodup_singleton 3)
  refine ⟨by decide +kernel, fun s hs => hpoll s ?_, by decide +kernel, fun s hs => hepoll s ?_⟩
  · exact System.reach_startedIn hs (by decide +kernel)
  · exact System.reach_startedIn hs (by decide +kernel)

/-- One client is accepted, and closes its connection. -/
def pollClosing : List Poll.Input :=
  [.ready [] [Poll.pollIn] [.accepted 5, .refused .EAGAIN], .ready [5] [0, Poll.pollIn] [.recv .closed, .recv .closed]]

def epollClosing : List Epoll.Input :=
  [.events [⟨3, epollIn, [.accepted 5, .refused .EAGAIN]⟩], .events [⟨5, epollIn, [.recv .closed, .recv .closed]⟩]]

/-- Not every run closes each descriptor once. -/
theorem closed_twice :
    (Poll.server.run ⟨.loop, .start [3] fun _ => none⟩ pollClosing).map (fun s => s.server.closes 5) = some (some 2) ∧
    (Epoll.server.run (Epoll.start [3]) epollClosing).map (fun s => s.server.closes 5) = some (some 2) ∧
    ¬ (∀ s, Poll.server.Reachable s → Closes.Once s.server.closes) ∧
    ¬ (∀ s, Epoll.server.Reachable s → Closes.Once s.server.closes) := by
  have hpoll : (Poll.server.run ⟨.loop, .start [3] fun _ => none⟩ pollClosing).map (fun s => s.server.closes 5) =
      some (some 2) := by decide +kernel
  have hepoll : (Epoll.server.run (Epoll.start [3]) epollClosing).map (fun s => s.server.closes 5) =
      some (some 2) := by decide +kernel
  refine ⟨hpoll, hepoll, fun h => ?_, fun h => ?_⟩
  · obtain ⟨s, hs, hc⟩ := Option.map_eq_some_iff.1 hpoll
    have := h s (System.reachable_of_run ⟨[3], rfl⟩ hs) 5 2 hc
    omega
  · obtain ⟨s, hs, hc⟩ := Option.map_eq_some_iff.1 hepoll
    have := h s (System.reachable_of_run ⟨[3], rfl⟩ hs) 5 2 hc
    omega

end TcpChat
