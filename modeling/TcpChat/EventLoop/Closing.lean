import TcpChat.EventLoop.Session
import TcpChat.Lib.Handles

/-!
# Who closes a descriptor of the event-loop servers

What the `poll` and the `epoll` server have in common.

* `Answer.Ends` — the answers on which `Read` or `Write` return `false`;
* `Serving` — while the server runs: its listeners and clients are the open descriptors, and no descriptor has been
  closed twice.  Every operation but `CloseClient` keeps it;
* `closeAll_spec` — `ChatServer::Stop` closes each of them once.
-/

namespace TcpChat.EventLoop

open TcpChat.Lib

/-! ## Answers that end a client -/

/-- `Read` or `Write`, with these flags of `send`, returns `false` on the answer. -/
def Answer.Ends (flags : UInt32) : Answer → Prop
  | .recv .closed | .send .closed => True
  | .recv (.error e) => e.again = false
  | .send (.error e) => e.again = false ∧ ¬ (e = .EPIPE ∧ flags &&& msgNoSignal = 0)
  | _ => False

instance (flags : UInt32) : DecidablePred (Answer.Ends flags)
  | .recv .closed | .send .closed => isTrue trivial
  | .recv (.error _) => inferInstanceAs (Decidable (_ = _))
  | .send (.error _) => inferInstanceAs (Decidable (_ ∧ _))
  | .recv (.bytes _) | .send (.count _) | .accepted _ | .refused _ => isFalse id

variable {I : Server → Prop} {flags : UInt32} {s s' : Server} {fd g : Fd} {l l' : List Answer}

theorem keepsIf_read {broadcastMsg : List UInt8 → ℕ → Server → Server} {this : ℕ}
    (hcast : ∀ s b, I s → I (broadcastMsg b this s)) :
    Prog.KeepsIf (¬ Answer.Ends flags ·) I (ClientSession.read broadcastMsg this) (· = true) := by
  intro s l h hl
  fun_induction ClientSession.read broadcastMsg this s l with
  | case1 s b l hb ih => exact ih (hcast s b h) fun r hr => hl r (List.mem_cons_of_mem _ hr)
  | case2 s b l hb => exact h
  | case3 s l => exact absurd trivial (hl _ List.mem_cons_self)
  | case4 s e l =>
    have he : ¬ e.again = false := hl _ List.mem_cons_self
    exact ⟨h, by simpa using he, fun r hr => hl r (List.mem_cons_of_mem _ hr)⟩
  | case5 => exact h

theorem keepsIf_write (hsend : ∀ s n, I s → I (s.modify fd (·.accepted n))) :
    Prog.KeepsIf (¬ Answer.Ends flags ·) I (ClientSession.write flags fd) (· = true) := by
  intro s l h hl
  fun_induction ClientSession.write flags fd s l with
  | case1 s l hq => exact ⟨h, rfl, hl⟩
  | case2 => exact h
  | case3 s msg rest n l hq hn hlt => exact ⟨hsend _ _ h, rfl, fun r hr => hl r (List.mem_cons_of_mem _ hr)⟩
  | case4 s msg rest n l hq hn hlt ih => exact ih (hsend _ _ h) fun r hr => hl r (List.mem_cons_of_mem _ hr)
  | case5 => exact absurd trivial (hl _ List.mem_cons_self)
  | case6 => exact h
  | case7 s msg rest e l hq he =>
    have hend : ¬ (e.again = false ∧ ¬ (e = .EPIPE ∧ flags &&& msgNoSignal = 0)) := hl _ List.mem_cons_self
    refine ⟨h, ?_, fun r hr => hl r (List.mem_cons_of_mem _ hr)⟩
    cases ha : e.again with
    | true => rfl
    | false => exact absurd ⟨ha, he⟩ hend
  | case8 => exact h

/-! ## While the server runs -/

namespace Server

/-- The listeners, and the sockets of the sessions. -/
def held (s : Server) : Set Fd :=
  {fd | fd ∈ s.listenSockets ∨ ∃ c, s.clients.lookup fd = some c ∧ c.socket = some fd}

end Server

/-- The server holds the open descriptors: its different listeners, and the sockets of its sessions, which it finds
under their own numbers. -/
structure Owning (s : Server) : Prop where
  balanced : Closes.Balanced s.closes s.held
  socket : ∀ fd c, s.clients.lookup fd = some c → ∀ sock ∈ c.socket, sock = fd
  apart : ∀ fd ∈ s.listenSockets, s.clients.lookup fd = none
  nodup : s.listenSockets.Nodup

/-- And none of its sessions has been stopped. -/
structure Serving (s : Server) : Prop extends Owning s where
  running : ∀ fd c, s.clients.lookup fd = some c → c.socket = some fd

theorem serving_start {listenSockets : List Fd} (h : listenSockets.Nodup) (interest : Fd → Option Registration) :
    Serving (.start listenSockets interest) where
  balanced := by
    refine ⟨fun fd => ?_, fun fd n hn => ?_⟩
    · by_cases hfd : fd ∈ listenSockets <;> simp [Server.held, Server.start, Closes.IsOpen, hfd]
    · simp only [Server.start, Option.ite_none_right_eq_some, Option.some.injEq] at hn
      omega
  socket fd c hc := by simp [Server.start] at hc
  apart fd _ := AList.lookup_empty fd
  nodup := h
  running fd c hc := by simp [Server.start] at hc

/-- A change of the sessions that leaves their sockets alone. -/
theorem Serving.of_map (h : Serving s) {f : Fd → ClientSession → ClientSession}
    (hf : ∀ fd c, (f fd c).socket = c.socket)
    (hc : ∀ g, s'.clients.lookup g = (s.clients.lookup g).map (f g)) (hcloses : s'.closes = s.closes)
    (hls : s'.listenSockets = s.listenSockets) : Serving s' := by
  have hold : ∀ fd c, s'.clients.lookup fd = some c → ∃ d, s.clients.lookup fd = some d ∧ c.socket = d.socket := by
    intro fd c hfd
    rw [hc, Option.map_eq_some_iff] at hfd
    obtain ⟨d, hd, rfl⟩ := hfd
    exact ⟨d, hd, hf fd d⟩
  refine ⟨⟨?_, fun fd c hfd sock hsock => ?_, fun fd hfd => ?_, hls ▸ h.nodup⟩, fun fd c hfd => ?_⟩
  · rw [hcloses]
    refine h.balanced.congr fun fd => or_congr (by rw [hls]) ?_
    constructor
    · rintro ⟨c, hfd, hsock⟩
      obtain ⟨d, hd, he⟩ := hold fd c hfd
      exact ⟨d, hd, he ▸ hsock⟩
    · rintro ⟨d, hd, hsock⟩
      exact ⟨f fd d, by rw [hc, hd, Option.map_some], by rw [hf, hsock]⟩
  · obtain ⟨d, hd, he⟩ := hold fd c hfd
    exact h.socket fd d hd sock (he ▸ hsock)
  · rw [hc, h.apart fd (hls ▸ hfd), Option.map_none]
  · obtain ⟨d, hd, he⟩ := hold fd c hfd
    exact he.trans (h.running fd d hd)

theorem Serving.modify (h : Serving s) {f : ClientSession → ClientSession} (hf : ∀ c, (f c).socket = c.socket) :
    Serving (s.modify fd f) :=
  h.of_map (fun g c => by split <;> simp [hf]) (fun _ => Table.lookup_modify f) rfl rfl

theorem Serving.halt (h : Serving s) : Serving { s with running := false } :=
  h.of_map (fun _ _ => rfl) (fun _ => Option.map_id'.symm) rfl rfl

/-- A client is accepted. -/
theorem Serving.emplace {cs : Fd} (h : Serving s) (ho : ¬ s.IsOpen cs) : Serving (s.emplace cs) := by
  have hheld : cs ∉ s.held := fun hm => ho ((h.balanced.isOpen cs).1 hm)
  have hnot : cs ∉ s.clients := by
    intro hm
    obtain ⟨c, hc⟩ := Option.isSome_iff_exists.1 (AList.lookup_isSome.2 hm)
    exact hheld (.inr ⟨c, hc, h.running cs c hc⟩)
  have hlookup : ∀ g, (s.emplace cs).clients.lookup g =
      if g = cs then some ⟨s.count, some cs, [], s.log.length, []⟩ else s.clients.lookup g := fun g =>
    Table.lookup_emplace_of_notMem hnot
  have hrun : ∀ fd c, (s.emplace cs).clients.lookup fd = some c → c.socket = some fd := by
    intro fd c hc
    rw [hlookup] at hc
    split at hc
    next he =>
      cases hc
      rw [he]
    next => exact h.running fd c hc
  refine ⟨⟨?_, fun fd c hc sock hsock => ?_, fun fd hfd => ?_, h.nodup⟩, hrun⟩
  · refine (h.balanced.handOut cs).congr fun fd => ?_
    by_cases he : fd = cs
    · subst he
      refine iff_of_true (.inr ⟨_, (hlookup fd).trans (if_pos rfl), rfl⟩) (Set.mem_insert fd _)
    · rw [Set.mem_insert_iff, or_iff_right he]
      refine or_congr Iff.rfl ?_
      rw [hlookup, if_neg he]
  · rw [hrun fd c hc] at hsock
    exact (Option.some.inj hsock).symm
  · have he : fd ≠ cs := by
      rintro rfl
      exact hheld (.inl hfd)
    rw [hlookup, if_neg he]
    exact h.apart fd hfd

theorem Serving.isOpen (h : Serving s) (hfd : fd ∈ s.clients) : s.IsOpen fd := by
  obtain ⟨c, hc⟩ := Option.isSome_iff_exists.1 (AList.lookup_isSome.2 hfd)
  exact (h.balanced.isOpen fd).1 (.inr ⟨c, hc, h.running fd c hc⟩)

/-! ## `Stop` -/

/-- `ClientSession::Stop` takes the socket of its session out of what is held. -/
theorem Owning.stop (h : Owning s) {sock : Fd} (hsock : (s.clients.lookup fd).bind (·.socket) = some sock) :
    Owning ((s.close sock).modify fd fun c => { c with socket := none }) := by
  obtain ⟨c, hc, hcs⟩ := Option.bind_eq_some_iff.1 hsock
  obtain rfl := h.socket fd c hc sock hcs
  have hlookup : ∀ g, ((s.close sock).modify sock fun c => { c with socket := none }).clients.lookup g =
      (s.clients.lookup g).map fun c => if g = sock then { c with socket := none } else c := fun g =>
    Table.lookup_modify _
  have hls : sock ∉ s.listenSockets := by
    intro hm
    rw [h.apart sock hm] at hc
    cases hc
  refine ⟨?_, fun g d hd sock' hs' => ?_, fun g hg => ?_, h.nodup⟩
  · refine (h.balanced.close (k := sock) (.inr ⟨c, hc, hcs⟩)).congr fun g => ?_
    rw [Set.mem_sdiff, Set.mem_singleton_iff]
    by_cases hg : g = sock
    · subst hg
      refine iff_of_false ?_ fun hg => hg.2 rfl
      rintro (hm | ⟨d, hd, hds⟩)
      · exact hls hm
      · rw [hlookup, hc, Option.map_some, if_pos rfl, Option.some.injEq] at hd
        rw [← hd] at hds
        cases hds
    · rw [and_iff_left hg]
      refine or_congr Iff.rfl ?_
      simp only [hlookup, if_neg hg, Option.map_id']
  · rw [hlookup, Option.map_eq_some_iff] at hd
    obtain ⟨d', hd', rfl⟩ := hd
    split at hs'
    · cases hs'
    · exact h.socket g d' hd' sock' hs'
  · rw [hlookup, h.apart g hg, Option.map_none]

/-- While it drains the socket, nothing has been closed. -/
theorem stop_halt {e : Halt} (h : ClientSession.stop fd s l = .halt e s') : s' = s := by
  rw [ClientSession.stop, Prog.bind_apply] at h
  simp only [Prog.get] at h
  cases hsock : (s.clients.lookup fd).bind (·.socket) with
  | none =>
    simp only [hsock] at h
    cases h
  | some sock =>
    simp only [hsock] at h
    have hdrain := ClientSession.keeps_gracefulShutdown (I := (· = s)) s l rfl
    rw [Prog.bind_apply] at h
    cases hg : ClientSession.gracefulShutdown s l with
    | ret u t k =>
      rw [hg] at h
      cases h
    | halt e' t =>
      rw [hg] at h hdrain
      cases h
      exact hdrain

/-- What one `Stop` makes of the sockets. -/
theorem Owning.stop_ret {u : Unit} (h : Owning s) (hret : ClientSession.stop fd s l = .ret u s' l') :
    Owning s' ∧ s'.listenSockets = s.listenSockets ∧ ∀ g, s'.clients.lookup g =
      (s.clients.lookup g).map fun c => if g = fd then { c with socket := none } else c := by
  have hs := ClientSession.stop_ret hret
  cases hsock : (s.clients.lookup fd).bind (·.socket) with
  | none =>
    rw [hsock] at hs
    subst hs
    refine ⟨h, rfl, fun g => ?_⟩
    cases hc : s'.clients.lookup g with
    | none => rfl
    | some c =>
      by_cases hg : g = fd
      · subst hg
        rw [hc, Option.bind_some] at hsock
        rw [Option.map_some, if_pos rfl, ← hsock]
      · rw [Option.map_some, if_neg hg]
  | some sock =>
    rw [hsock] at hs
    subst hs
    exact ⟨h.stop hsock, rfl, fun g => Table.lookup_modify _⟩

/-- The loop of `ChatServer::Stop` over the clients. -/
theorem eachStop_spec (fds : List Fd) (h : Owning s) (l : List Answer) :
    match Prog.each ClientSession.stop fds s l with
    | .ret _ s' _ => Owning s' ∧ s'.listenSockets = s.listenSockets ∧ ∀ g, s'.clients.lookup g =
        (s.clients.lookup g).map fun c => if g ∈ fds then { c with socket := none } else c
    | .halt _ s' => Owning s' := by
  induction fds generalizing s l with
  | nil => exact ⟨h, rfl, fun g => by simp⟩
  | cons fd fds ih =>
    rw [Prog.each, Prog.bind_apply]
    cases hstop : ClientSession.stop fd s l with
    | halt e t => exact stop_halt hstop ▸ h
    | ret u t k =>
      obtain ⟨ht, hls, hlookup⟩ := h.stop_ret hstop
      have hrest := ih ht k
      dsimp only
      cases hfds : Prog.each ClientSession.stop fds t k with
      | halt e t' =>
        rw [hfds] at hrest
        exact hrest
      | ret u' t' k' =>
        rw [hfds] at hrest
        obtain ⟨ht', hls', hlookup'⟩ := hrest
        refine ⟨ht', hls'.trans hls, fun g => ?_⟩
        rw [hlookup', hlookup, Option.map_map]
        congr 1
        funext c
        by_cases hg : g = fd
        · subst hg
          by_cases hm : g ∈ fds <;> simp [hm]
        · simp [hg]

/-- `for (auto& s : m_listenSockets) SafeCloseSocket(s);` -/
theorem eachClose_apply (fds : List Fd) (l : List Answer) :
    ∃ s', Prog.each (fun fd => Prog.modify (Server.close · fd)) fds s l = .ret () s' l ∧
      s'.closes = fds.foldl Closes.close s.closes := by
  induction fds generalizing s with
  | nil => exact ⟨s, rfl, rfl⟩
  | cons fd fds ih =>
    obtain ⟨s', hret, hcloses⟩ := ih (s := s.close fd)
    exact ⟨s', hret, hcloses⟩

/-- **`ChatServer::Stop` closes everything once**: when it has returned, every descriptor has been closed exactly once
since it was handed out, and before that none more often.  `finish` is what the two servers do at the end. -/
theorem closeAll_spec (finish : Server → Server) (hf : ∀ s, (finish s).closes = s.closes) (h : Owning s)
    (l : List Answer) :
    match (do
      Prog.each ClientSession.stop s.clients.keys
      Prog.modify fun s => { s with clients := ∅ }
      Prog.each (fun fd => Prog.modify (Server.close · fd)) s.listenSockets
      Prog.modify finish : Prog Server Answer Unit) s l with
    | .ret _ s' _ => Closes.Balanced s'.closes ∅
    | .halt _ s' => Closes.Once s'.closes := by
  have hclients := eachStop_spec s.clients.keys h l
  rw [Prog.bind_apply]
  cases hstop : Prog.each ClientSession.stop s.clients.keys s l with
  | halt e t =>
    rw [hstop] at hclients
    exact hclients.balanced.once
  | ret u t k =>
    rw [hstop] at hclients
    obtain ⟨ht, hls, hlookup⟩ := hclients
    obtain ⟨t', hclose, hcloses⟩ := eachClose_apply (s := { t with clients := ∅ }) s.listenSockets k
    have hclear : (Prog.modify fun s => { s with clients := ∅ } : Prog Server Answer Unit) t k =
        .ret () { t with clients := ∅ } k := rfl
    dsimp only
    rw [Prog.bind_of_ret hclear, Prog.bind_of_ret hclose]
    simp only [Prog.modify, hf, hcloses]
    -- the sessions that are dropped hold nothing any more
    have hheld : ∀ fd, fd ∈ t.held ↔ fd ∈ s.listenSockets := by
      intro fd
      refine ⟨fun hm => ?_, fun hm => .inl (hls ▸ hm)⟩
      rcases hm with hm | ⟨c, hc, hsock⟩
      · exact hls ▸ hm
      · rw [hlookup, Option.map_eq_some_iff] at hc
        obtain ⟨d, hd, rfl⟩ := hc
        have hkey : fd ∈ s.clients.keys := AList.lookup_isSome.1 (by rw [hd]; rfl)
        rw [if_pos hkey] at hsock
        cases hsock
    refine (ht.balanced.foldl_close (hls ▸ ht.nodup) fun fd hfd => (hheld fd).2 hfd).congr fun fd => ?_
    refine iff_of_false (Set.notMem_empty fd) ?_
    rintro ⟨hm, hn⟩
    exact hn ((hheld fd).1 hm)

/-- Nothing is left to close. -/
theorem Serving.balanced_empty (h : Serving s) (hls : s.listenSockets = []) (hkeys : s.clients.keys = []) :
    Closes.Balanced s.closes ∅ := by
  refine h.balanced.congr fun fd => iff_of_false (Set.notMem_empty fd) ?_
  rintro (hm | ⟨c, hc, -⟩)
  · rw [hls] at hm
    cases hm
  · have hkey : fd ∈ s.clients.keys := AList.lookup_isSome.1 (by rw [hc]; rfl)
    rw [hkeys] at hkey
    cases hkey

/-! ## Runs -/

/-- While the server runs its clients are open, no descriptor has ever been closed twice, so that one that is handed
out again has been closed exactly once, and in the end all have. -/
structure ClosedOnce (s : State) : Prop where
  once : Closes.Once s.server.closes
  client : s.phase = .loop → ∀ fd ∈ s.server.clients, s.server.IsOpen fd
  stopped : s.phase = .stopped → ∀ fd n, s.server.closes fd = some n → n = 1

/-- What holds in each phase of a run in which `CloseClient` is never called. -/
def Tidy : State → Prop
  | ⟨.loop, s⟩ | ⟨.stopping, s⟩ => Serving s
  | ⟨.stopped, s⟩ => Closes.Balanced s.closes ∅
  | ⟨.halted _, s⟩ => Closes.Once s.closes

theorem Tidy.closedOnce {s : State} (h : Tidy s) : ClosedOnce s := by
  obtain ⟨phase, s⟩ := s
  cases phase with
  | loop => exact ⟨h.balanced.once, fun _ fd hfd => h.isOpen hfd, nofun⟩
  | stopping => exact ⟨h.balanced.once, nofun, nofun⟩
  | stopped => exact ⟨h.once, nofun, fun _ => Closes.balanced_empty.1 h⟩
  | halted e => exact ⟨h, nofun, nofun⟩

/-- A part of the program that keeps the server running. -/
theorem tidy_of {α : Type} {o : Outcome Server Answer α} (h : Serving o.state) : Tidy (.of loopTest o) := by
  cases o with
  | ret a s l =>
    simp only [State.of, loopTest]
    split
    · exact h
    · exact h
  | halt e s => exact h.balanced.once

end TcpChat.EventLoop
