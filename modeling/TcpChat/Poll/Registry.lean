import TcpChat.Poll.Stream

/-!
# The clients and the poll set

The array of `pollfd` is a snapshot: the handlers accept and close descriptors while they go through it, and look the
sessions up by their descriptors.

* `Registered` — the invariant that ties the clients to their descriptors;
* `Busy` — what a handler does before it closes its client;
* `handleClient_spec`, `handleListeners_spec` — one handler, and the listeners;
* `registry` — every entry is handled for the session that had the descriptor when `poll` was called.
-/

namespace TcpChat.Poll

open TcpChat.Lib TcpChat.EventLoop

variable {s s' t : Server} {fd g : Fd} {l l' : List Answer} {c : ClientSession}

/-! ## The invariant -/

/-- Clients are open descriptors, each the socket of its own session, and none is a listener. -/
structure Registered (s : Server) : Prop where
  numbered : Numbered s
  socket : ∀ fd c, s.clients.lookup fd = some c → c.socket = some fd
  client : ∀ fd, fd ∈ s.clients → s.IsOpen fd ∧ fd ∉ s.listenSockets
  listener : ∀ fd, fd ∈ s.listenSockets → s.IsOpen fd

theorem mem_clients : fd ∈ s.clients ↔ ∃ c, s.clients.lookup fd = some c := by
  rw [← AList.lookup_isSome, Option.isSome_iff_exists]

/-- Every client of `s'` was one of `s`, as the same session and with the same socket. -/
def Older (s s' : Server) : Prop :=
  ∀ fd c', s'.clients.lookup fd = some c' → ∃ c, s.clients.lookup fd = some c ∧ c'.id = c.id ∧ c'.socket = c.socket

theorem Registered.older (h : Registered s) (ho : Older s s') (hcount : s'.count = s.count)
    (hls : s'.listenSockets = s.listenSockets) (hopen : ∀ fd, fd ∈ s'.clients ∨ fd ∈ s.listenSockets →
      s'.closes fd = s.closes fd) : Registered s' := by
  refine ⟨⟨fun fd c' hc' => ?_, fun fd fd' c' d' hc' hd' he => ?_⟩, fun fd c' hc' => ?_, fun fd hfd => ?_,
    fun fd hfd => ?_⟩
  · obtain ⟨c, hc, hid, -⟩ := ho fd c' hc'
    rw [hid, hcount]
    exact h.numbered.lt fd c hc
  · obtain ⟨c, hc, hid, -⟩ := ho fd c' hc'
    obtain ⟨d, hd, hid', -⟩ := ho fd' d' hd'
    exact h.numbered.inj fd fd' c d hc hd (hid.symm.trans (he.trans hid'))
  · obtain ⟨c, hc, -, hsock⟩ := ho fd c' hc'
    rw [hsock]
    exact h.socket fd c hc
  · obtain ⟨c', hc'⟩ := mem_clients.1 hfd
    obtain ⟨c, hc, -⟩ := ho fd c' hc'
    rw [Server.IsOpen, hopen fd (.inl hfd), hls]
    exact h.client fd (mem_clients.2 ⟨c, hc⟩)
  · rw [Server.IsOpen, hopen fd (.inr (hls ▸ hfd))]
    exact h.listener fd (hls ▸ hfd)

/-! ## One client -/

/-- What the handler of the session `c` at `fd` does before it closes it: the session stays, and the others get what it
broadcasts. -/
structure Busy (fd : Fd) (c : ClientSession) (chunks : List (List UInt8)) (s t : Server) : Prop where
  own : ∃ c', t.clients.lookup fd = some c' ∧ c'.id = c.id ∧ c'.socket = c.socket ∧ c'.since = c.since
  others : ∀ g, g ≠ fd → t.clients.lookup g = (s.clients.lookup g).map fun d => chunks.foldl (·.postSend ·) d
  log : t.log = s.log ++ chunks.map fun b => ⟨c.id, b⟩
  received : ∀ b ∈ chunks, b ≠ [] ∧ b.length ≤ recvBuf
  keys : t.clients.keys = s.clients.keys
  closes : t.closes = s.closes
  listenSockets : t.listenSockets = s.listenSockets
  running : t.running = s.running
  count : t.count = s.count

theorem Busy.refl (hc : s.clients.lookup fd = some c) : Busy fd c [] s s where
  own := ⟨c, hc, rfl, rfl, rfl⟩
  others g _ := by simp
  log := by simp
  received := by simp
  keys := rfl
  closes := rfl
  listenSockets := rfl
  running := rfl
  count := rfl

theorem postSend_socket {msg : List UInt8} : (c.postSend msg).socket = c.socket := by
  unfold ClientSession.postSend
  split <;> rfl

theorem foldl_postSend (chunks : List (List UInt8)) (c : ClientSession) :
    (chunks.foldl (·.postSend ·) c).id = c.id ∧ (chunks.foldl (·.postSend ·) c).socket = c.socket := by
  induction chunks generalizing c with
  | nil => exact ⟨rfl, rfl⟩
  | cons b chunks ih =>
    rw [List.foldl_cons, (ih _).1, (ih _).2]
    exact ⟨ClientSession.postSend_id, postSend_socket⟩

theorem Busy.older {chunks : List (List UInt8)} (h : Busy fd c chunks s t) (hc : s.clients.lookup fd = some c) :
    Older s t := by
  intro g d' hd'
  by_cases hg : g = fd
  · subst hg
    obtain ⟨c', hc', hid, hsock, -⟩ := h.own
    rw [hc', Option.some.injEq] at hd'
    exact ⟨c, hc, hd' ▸ hid, hd' ▸ hsock⟩
  · rw [h.others g hg, Option.map_eq_some_iff] at hd'
    obtain ⟨d, hd, rfl⟩ := hd'
    exact ⟨d, hd, foldl_postSend chunks d⟩

theorem Busy.registered {chunks : List (List UInt8)} (h : Busy fd c chunks s t) (hc : s.clients.lookup fd = some c)
    (hreg : Registered s) : Registered t :=
  hreg.older (h.older hc) h.count h.listenSockets fun g _ => by rw [h.closes]

/-- A broadcast of the session. -/
theorem Busy.broadcastMsg {chunks : List (List UInt8)} {b : List UInt8} (h : Busy fd c chunks s t)
    (hreg : Registered s) (hc : s.clients.lookup fd = some c) (hb : b ≠ [] ∧ b.length ≤ recvBuf) :
    Busy fd c (chunks ++ [b]) s (broadcastMsg b c.id t) where
  own := by
    obtain ⟨c', hc', hid, hrest⟩ := h.own
    refine ⟨c', ?_, hid, hrest⟩
    rw [Poll.broadcastMsg, Table.lookup_update, hc', Option.map_some, if_neg (not_not.2 hid)]
  others g hg := by
    rw [Poll.broadcastMsg, Table.lookup_update, h.others g hg, Option.map_map]
    cases hd : s.clients.lookup g with
    | none => rfl
    | some d =>
      have hne : (chunks.foldl (·.postSend ·) d).id ≠ c.id := by
        rw [(foldl_postSend chunks d).1]
        exact fun he => hg (hreg.numbered.inj g fd d c hd hc he)
      simp only [Option.map_some, Function.comp_apply, if_pos hne, List.foldl_append, List.foldl_cons, List.foldl_nil]
  log := by
    rw [Poll.broadcastMsg, h.log, List.map_append, List.append_assoc]
    rfl
  received := by
    rw [List.forall_mem_append]
    exact ⟨h.received, List.forall_mem_singleton.2 hb⟩
  keys := (Table.keys_update _).trans h.keys
  closes := h.closes
  listenSockets := h.listenSockets
  running := h.running
  count := h.count

/-- A `send` of the session. -/
theorem Busy.accepted {chunks : List (List UInt8)} {n : ℕ} (h : Busy fd c chunks s t) :
    Busy fd c chunks s (t.modify fd (·.accepted n)) where
  own := by
    obtain ⟨c', hc', hid, hsock, hsince⟩ := h.own
    refine ⟨c'.accepted n, ?_, ClientSession.accepted_id.trans hid, ClientSession.accepted_socket.trans hsock,
      ClientSession.accepted_since.trans hsince⟩
    rw [Server.modify, Table.lookup_modify, hc', Option.map_some, if_pos rfl]
  others g hg := by
    rw [Server.modify, Table.lookup_modify, h.others g hg]
    simp only [if_neg hg, Option.map_id']
  log := h.log
  received := h.received
  keys := (Table.keys_update _).trans h.keys
  closes := h.closes
  listenSockets := h.listenSockets
  running := h.running
  count := h.count

theorem keeps_read_busy (hreg : Registered s) (hc : s.clients.lookup fd = some c) :
    Prog.Keeps (fun t => ∃ chunks, Busy fd c chunks s t) (read c.id) :=
  ClientSession.keeps_read fun _ b hne hlen ⟨chunks, h⟩ => ⟨chunks ++ [b], h.broadcastMsg hreg hc ⟨hne, hlen⟩⟩

theorem keeps_write_busy : Prog.Keeps (fun t => ∃ chunks, Busy fd c chunks s t) (write fd) :=
  ClientSession.keeps_write fun _ _ ⟨chunks, h⟩ => ⟨chunks, h.accepted⟩

/-- `CloseClient` at its end. -/
def dropClient (fd : Fd) (s : Server) : Server :=
  ((((s.close fd).modify fd fun c => { c with socket := none }).erase fd).close fd)

theorem lookup_dropClient (hg : g ≠ fd) : (dropClient fd s).clients.lookup g = s.clients.lookup g := by
  have hlookup : (dropClient fd s).clients.lookup g =
      ((s.clients.modify fd fun c => { c with socket := none }).erase fd).lookup g := rfl
  rw [hlookup, AList.lookup_erase_ne hg, Table.lookup_modify]
  simp only [if_neg hg, Option.map_id']

theorem lookup_dropClient_self : (dropClient fd s).clients.lookup fd = none :=
  AList.lookup_erase _ _

theorem closes_dropClient (hg : g ≠ fd) : (dropClient fd s).closes g = s.closes g := by
  have hcloses : (dropClient fd s).closes = ((s.close fd).close fd).closes := rfl
  rw [hcloses, Server.close, Server.close]
  simp only [Function.update_of_ne hg]

theorem Registered.dropClient (h : Registered s) (hfd : fd ∈ s.clients) : Registered (dropClient fd s) := by
  have hne : ∀ g, g ∈ (Poll.dropClient fd s).clients → g ≠ fd := by
    rintro g hg rfl
    obtain ⟨d, hd⟩ := mem_clients.1 hg
    rw [lookup_dropClient_self] at hd
    cases hd
  refine h.older (fun g d hd => ⟨d, ?_, rfl, rfl⟩) rfl rfl fun g hg => closes_dropClient ?_
  · rw [← lookup_dropClient (hne g (mem_clients.2 ⟨d, hd⟩))]
    exact hd
  · rcases hg with hg | hg
    · exact hne g hg
    · rintro rfl
      exact (h.client g hfd).2 hg

theorem gracefulShutdown_spec (s : Server) (l : List Answer) :
    (∃ l', ClientSession.gracefulShutdown s l = .ret () s l') ∨
      ClientSession.gracefulShutdown s l = .halt .blocked s := by
  fun_induction ClientSession.gracefulShutdown s l with
  | case1 s b l hb ih => exact ih
  | _ => simp

/-- `CloseClient` drains the socket of its client and drops it. -/
theorem closeClient_apply (hc : s.clients.lookup fd = some c) (hsock : c.socket = some fd) (l : List Answer) :
    closeClient fd s l =
      match ClientSession.gracefulShutdown s l with
      | .ret _ s' l' => .ret () (dropClient fd s') l'
      | .halt e s' => .halt e s' := by
  have hmem : fd ∈ s.clients := mem_clients.2 ⟨c, hc⟩
  rw [closeClient, Prog.bind_apply]
  simp only [Prog.get, if_pos hmem, ClientSession.stop, Prog.bind_apply, hc, Option.bind_some, hsock]
  cases ClientSession.gracefulShutdown s l <;> rfl

/-- The handler of a client has stopped: it goes on with the session, or has dropped it, or is in a call. -/
def Handled (fd : Fd) (t : Server) (o : Outcome Server Answer Unit) : Prop :=
  (∃ l', o = .ret () t l') ∨ (∃ l', o = .ret () (dropClient fd t) l') ∨ ∃ e, o = .halt e t

theorem closeClient_spec (hc : s.clients.lookup fd = some c) (hsock : c.socket = some fd) (l : List Answer) :
    Handled fd s (closeClient fd s l) := by
  rw [closeClient_apply hc hsock]
  rcases gracefulShutdown_spec s l with ⟨l', hl'⟩ | hl'
  · rw [hl']
    exact .inr (.inl ⟨l', rfl⟩)
  · rw [hl']
    exact .inr (.inr ⟨_, rfl⟩)

/-- **One client**: up to its end, its handler is busy with the session that has the descriptor. -/
theorem handleClient_spec {pfd : Pollfd} (hreg : Registered s) (hc : s.clients.lookup pfd.fd = some c)
    (l : List Answer) : ∃ chunks t, Busy pfd.fd c chunks s t ∧ Handled pfd.fd t (handleClient pfd s l) := by
  have hclose : ∀ {chunks t} (l : List Answer), Busy pfd.fd c chunks s t →
      ∃ chunks t', Busy pfd.fd c chunks s t' ∧ Handled pfd.fd t' (closeClient pfd.fd t l) := by
    intro chunks t l hb
    obtain ⟨c', hc', -, hsock, -⟩ := hb.own
    exact ⟨chunks, t, hb, closeClient_spec hc' (hsock.trans (hreg.socket _ c hc)) l⟩
  have hrefl : ∃ chunks, Busy pfd.fd c chunks s s := ⟨[], .refl hc⟩
  unfold handleClient
  split
  · exact hclose l hrefl.choose_spec
  rw [Prog.bind_apply]
  simp only [Prog.get, hc]
  -- `Read`, then `Write`
  have hread := Prog.keeps_ite (c := pfd.revents &&& pollIn ≠ 0) (keeps_read_busy hreg hc) (Prog.keeps_pure true) s l
    hrefl
  refine Prog.bind_rule (Q := fun o => ∃ chunks t, Busy pfd.fd c chunks s t ∧ Handled pfd.fd t o) (fun e t ht => ?_)
    fun readable t k ht => ?_
  · rw [ht] at hread
    obtain ⟨chunks, hb⟩ := hread
    exact ⟨chunks, t, hb, .inr (.inr ⟨e, rfl⟩)⟩
  rw [ht] at hread
  split
  · have hwrite := Prog.keeps_ite (c := pfd.revents &&& pollOut ≠ 0) keeps_write_busy (Prog.keeps_pure true) t k hread
    refine Prog.bind_rule (Q := fun o => ∃ chunks t, Busy pfd.fd c chunks s t ∧ Handled pfd.fd t o)
      (fun e t' ht' => ?_) fun writable t' k' ht' => ?_
    · rw [ht'] at hwrite
      obtain ⟨chunks, hb⟩ := hwrite
      exact ⟨chunks, t', hb, .inr (.inr ⟨e, rfl⟩)⟩
    · rw [ht'] at hwrite
      obtain ⟨chunks, hb⟩ := hwrite
      split
      · exact ⟨chunks, t', hb, .inl ⟨k', rfl⟩⟩
      · exact hclose k' hb
  · obtain ⟨chunks, hb⟩ := hread
    exact hclose k hb

/-- The client at `g` stays the same session. -/
def Stays (g : Fd) (s s' : Server) : Prop :=
  ∀ c, s.clients.lookup g = some c → ∃ c', s'.clients.lookup g = some c' ∧ c'.id = c.id ∧ c'.socket = c.socket

theorem Stays.trans (h : Stays g s s') (h' : Stays g s' t) : Stays g s t := by
  intro c hc
  obtain ⟨c', hc', hid, hsock⟩ := h c hc
  obtain ⟨d, hd, hid', hsock'⟩ := h' c' hc'
  exact ⟨d, hd, hid'.trans hid, hsock'.trans hsock⟩

theorem Busy.stays {chunks : List (List UInt8)} (h : Busy fd c chunks s t) (hg : g ≠ fd) : Stays g s t := by
  intro d hd
  refine ⟨_, ?_, foldl_postSend chunks d⟩
  rw [h.others g hg, hd]
  rfl

theorem handleClient_ret {pfd : Pollfd} {u : Unit} (hreg : Registered s) (hc : s.clients.lookup pfd.fd = some c)
    (h : handleClient pfd s l = .ret u s' l') :
    Registered s' ∧ s'.listenSockets = s.listenSockets ∧ s'.running = s.running ∧ ∀ g, g ≠ pfd.fd → Stays g s s' := by
  obtain ⟨chunks, t, hb, hend⟩ := handleClient_spec hreg hc l
  have hregt := hb.registered hc hreg
  rw [h] at hend
  rcases hend with ⟨k, hk⟩ | ⟨k, hk⟩ | ⟨e, he⟩
  · cases hk
    exact ⟨hregt, hb.listenSockets, hb.running, fun g hg => hb.stays hg⟩
  · cases hk
    obtain ⟨c', hc', -⟩ := hb.own
    refine ⟨hregt.dropClient (mem_clients.2 ⟨c', hc'⟩), hb.listenSockets, hb.running, fun g hg => ?_⟩
    refine (hb.stays hg).trans fun d hd => ⟨d, ?_, rfl, rfl⟩
    rw [lookup_dropClient hg]
    exact hd
  · cases he

/-- The loop over clients. -/
theorem handleClients_ret {pfds : List Pollfd} {u : Unit} (hreg : Registered s) (hnodup : (pfds.map (·.fd)).Nodup)
    (hin : ∀ pfd ∈ pfds, pfd.fd ∈ s.clients) (h : handleClients pfds s l = .ret u s' l') :
    Registered s' ∧ s'.listenSockets = s.listenSockets ∧ s'.running = s.running ∧
      ∀ g, g ∉ pfds.map (·.fd) → Stays g s s' := by
  induction pfds generalizing s l with
  | nil =>
    obtain ⟨-, rfl, rfl⟩ := Prog.pure_ret.1 h
    exact ⟨hreg, rfl, rfl, fun g _ c hc => ⟨c, hc, rfl, rfl⟩⟩
  | cons pfd pfds ih =>
    obtain ⟨v, t, k, hhead, htail⟩ := Prog.bind_ret.1 h
    obtain ⟨c, hc⟩ := mem_clients.1 (hin pfd List.mem_cons_self)
    obtain ⟨hregt, hls, hrun, hstays⟩ := handleClient_ret hreg hc hhead
    rw [List.map_cons, List.nodup_cons] at hnodup
    have hint : ∀ p ∈ pfds, p.fd ∈ t.clients := by
      intro p hp
      obtain ⟨d, hd⟩ := mem_clients.1 (hin p (List.mem_cons_of_mem _ hp))
      have hne : p.fd ≠ pfd.fd := fun he => hnodup.1 (he ▸ List.mem_map_of_mem hp)
      obtain ⟨d', hd', -⟩ := hstays _ hne d hd
      exact mem_clients.2 ⟨d', hd'⟩
    obtain ⟨hreg', hls', hrun', hstays'⟩ := ih hregt hnodup.2 hint htail
    refine ⟨hreg', hls'.trans hls, hrun'.trans hrun, fun g hg => ?_⟩
    rw [List.map_cons, List.mem_cons, not_or] at hg
    exact (hstays g hg.1).trans (hstays' g hg.2)

/-! ## The listeners -/

theorem Registered.emplace {cs : Fd} (h : Registered s) (ho : ¬ s.IsOpen cs) :
    Registered (s.emplace cs) ∧ ∀ fd c, s.clients.lookup fd = some c → (s.emplace cs).clients.lookup fd = some c := by
  have hnot : cs ∉ s.clients := fun hmem => ho (h.client cs hmem).1
  have hlookup : ∀ g, (s.emplace cs).clients.lookup g =
      if g = cs then some ⟨s.count, some cs, [], s.log.length, []⟩ else s.clients.lookup g := fun g =>
    Table.lookup_emplace_of_notMem hnot
  have hopen : ∀ g, s.IsOpen g → (s.emplace cs).IsOpen g := by
    intro g hg
    have hne : g ≠ cs := by
      rintro rfl
      exact ho hg
    exact (Function.update_of_ne hne _ _).trans hg
  have hold : ∀ fd c, s.clients.lookup fd = some c → (s.emplace cs).clients.lookup fd = some c := by
    intro fd c hc
    have hne : fd ≠ cs := by
      rintro rfl
      exact hnot (mem_clients.2 ⟨c, hc⟩)
    rw [hlookup, if_neg hne]
    exact hc
  refine ⟨⟨h.numbered.emplace cs, fun fd c hc => ?_, fun fd hfd => ?_, fun fd hfd => hopen fd (h.listener fd hfd)⟩,
    hold⟩
  · rw [hlookup] at hc
    split at hc
    next he =>
      cases hc
      rw [he]
    next => exact h.socket fd c hc
  · obtain ⟨c, hc⟩ := mem_clients.1 hfd
    rw [hlookup] at hc
    split at hc
    next he =>
      subst he
      exact ⟨Function.update_self .., fun hl => ho (h.listener fd hl)⟩
    next =>
      obtain ⟨ho', hl⟩ := h.client fd (mem_clients.2 ⟨c, hc⟩)
      exact ⟨hopen fd ho', hl⟩

/-- The clients stay as they are while others are accepted. -/
structure Accepts (s s' : Server) : Prop where
  registered : Registered s'
  clients : ∀ fd c, s.clients.lookup fd = some c → s'.clients.lookup fd = some c
  listenSockets : s'.listenSockets = s.listenSockets

theorem acceptAll_ret {u : Unit} (hreg : Registered s) (h : acceptAll s l = .ret u s' l') :
    Accepts s s' ∧ s'.running = s.running := by
  fun_induction acceptAll s l with
  | case2 s cs l ho ih =>
    obtain ⟨hreg', hold⟩ := hreg.emplace ho
    obtain ⟨⟨hreg'', hold', hls⟩, hrun⟩ := ih hreg' h
    exact ⟨⟨hreg'', fun fd c hc => hold' fd c (hold fd c hc), hls⟩, hrun⟩
  | case3 s e l =>
    cases h
    exact ⟨⟨hreg, fun _ _ hc => hc, rfl⟩, rfl⟩
  | _ => cases h

theorem handleListeners_ret {pfds : List Pollfd} {u : Unit} (hreg : Registered s)
    (h : handleListeners pfds s l = .ret u s' l') : Accepts s s' := by
  induction pfds generalizing s l with
  | nil =>
    obtain ⟨-, rfl, rfl⟩ := Prog.pure_ret.1 h
    exact ⟨hreg, fun _ _ hc => hc, rfl⟩
  | cons pfd pfds ih =>
    unfold handleListeners at h
    split at h
    · obtain ⟨rfl, rfl⟩ := Prog.modify_ret.1 h
      exact ⟨⟨⟨hreg.numbered.lt, hreg.numbered.inj⟩, hreg.socket, hreg.client, hreg.listener⟩, fun _ _ hc => hc, rfl⟩
    split at h
    · obtain ⟨v, t, k, haccept, htail⟩ := Prog.bind_ret.1 h
      obtain ⟨⟨hregt, hold, hls⟩, -⟩ := acceptAll_ret hreg haccept
      obtain ⟨hreg', hold', hls'⟩ := ih hregt htail
      exact ⟨hreg', fun fd c hc => hold' fd c (hold fd c hc), hls'.trans hls⟩
    · exact ih hreg h

/-- The listeners, and then some clients: those and the ones behind them stay. -/
theorem ahead_ret {ls pre : List Pollfd} {u : Unit} (hreg : Registered s) (hnodup : (pre.map (·.fd)).Nodup)
    (hin : ∀ pfd ∈ pre, pfd.fd ∈ s.clients)
    (h : (do handleListeners ls; handleClients pre : Prog Server Answer Unit) s l = .ret u t l') :
    Registered t ∧ ∀ g, g ∉ pre.map (·.fd) → Stays g s t := by
  obtain ⟨v, t₁, k, hlisteners, hclients⟩ := Prog.bind_ret.1 h
  obtain ⟨hreg₁, hold, -⟩ := handleListeners_ret hreg hlisteners
  have hin₁ : ∀ pfd ∈ pre, pfd.fd ∈ t₁.clients := by
    intro pfd hp
    obtain ⟨d, hd⟩ := mem_clients.1 (hin pfd hp)
    exact mem_clients.2 ⟨d, hold _ d hd⟩
  obtain ⟨hregt, -, -, hstays⟩ := handleClients_ret hreg₁ hnodup hin₁ hclients
  have hfirst : ∀ g, Stays g s t₁ := fun g d hd => ⟨d, hold _ d hd, rfl, rfl⟩
  exact ⟨hregt, fun g hg => (hfirst g).trans (hstays g hg)⟩

/-! ## One iteration -/

/-- The poll set when `poll` has returned. -/
def polled (s : Server) (order : List Fd) (revents : List UInt16) : List Pollfd :=
  (rebuildPollSet s order).zipWith (fun pfd r => { pfd with revents := r }) revents

/-- The entry of a client. -/
def clientEntry (s : Server) (fd : Fd) : Pollfd :=
  match s.clients.lookup fd with
  | some c => ⟨fd, if c.isWantSend then pollIn ||| pollOut else pollIn, 0⟩
  | none => ⟨fd, pollIn, 0⟩

theorem clientEntry_fd : (clientEntry s fd).fd = fd := by
  unfold clientEntry
  split <;> rfl

theorem rebuildPollSet_eq (s : Server) (order : List Fd) :
    rebuildPollSet s order = s.listenSockets.map (fun fd => ⟨fd, pollIn, 0⟩) ++ order.map (clientEntry s) := rfl

theorem map_fd_clientEntry (s : Server) (order : List Fd) : (order.map (clientEntry s)).map (·.fd) = order := by
  rw [List.map_map]
  exact List.map_id'' (fun fd => clientEntry_fd) order

theorem map_fd_rebuildPollSet (s : Server) (order : List Fd) :
    (rebuildPollSet s order).map (·.fd) = s.listenSockets ++ order := by
  rw [rebuildPollSet_eq, List.map_append, map_fd_clientEntry, List.map_map]
  exact congrArg (· ++ order) (List.map_id' _)

theorem map_fd_zipWith {pfds : List Pollfd} {revents : List UInt16} (h : revents.length = pfds.length) :
    (pfds.zipWith (fun pfd r => { pfd with revents := r }) revents).map (·.fd) = pfds.map (·.fd) := by
  induction pfds generalizing revents with
  | nil => rfl
  | cons pfd pfds ih =>
    cases revents with
    | nil => cases h
    | cons r revents =>
      rw [List.zipWith_cons_cons, List.map_cons, List.map_cons, ih (Nat.succ.inj h)]

theorem map_fd_polled {order : List Fd} {revents : List UInt16}
    (hlength : revents.length = (rebuildPollSet s order).length) :
    (polled s order revents).map (·.fd) = s.listenSockets ++ order := by
  rw [← map_fd_rebuildPollSet s order]
  exact map_fd_zipWith hlength

/-- The entries behind the listeners are those of the clients, each of them once. -/
theorem map_fd_drop_polled {order : List Fd} {revents : List UInt16}
    (hlength : revents.length = (rebuildPollSet s order).length) :
    ((polled s order revents).drop s.listenSockets.length).map (·.fd) = order := by
  rw [List.map_drop, map_fd_polled hlength, List.drop_left]

theorem entries_of_perm {order : List Fd} (hperm : order.Perm s.clients.keys) :
    order.Nodup ∧ ∀ fd, fd ∈ order ↔ fd ∈ s.clients :=
  ⟨hperm.nodup_iff.2 s.clients.nodupKeys, fun _ => hperm.mem_iff⟩

/-- What `RunLoop` does with the entries. -/
def tick (s : Server) (order : List Fd) (revents : List UInt16) : Prog Server Answer Unit := do
  handleListeners ((polled s order revents).take s.listenSockets.length)
  handleClients ((polled s order revents).drop s.listenSockets.length)

/-- The input is an answer of `poll` for the poll set of `s`. -/
def Fits (s : Server) (order : List Fd) (revents : List UInt16) : Prop :=
  order.Perm s.clients.keys ∧ revents.length = (rebuildPollSet s order).length

/-- What a step can be. -/
theorem step_cases {s s' : State} {x : Input} (h : step s x = some s') :
    (s.phase = .loop ∧ ((x = .interrupted ∨ x = .timeout) ∧ s' = s ∨ x = .failed ∧ s' = ⟨.stopping, s.server⟩ ∨
        ∃ order revents answers, x = .ready order revents answers ∧ Fits s.server order revents ∧
          s' = .of loopTest (tick s.server order revents s.server answers))) ∨
      s.phase = .stopping ∧ ∃ answers, x = .stop answers ∧ s' = .of (fun _ => .stopped) (stop s.server answers) := by
  obtain ⟨phase, s⟩ := s
  cases phase with
  | loop =>
    cases x with
    | ready order revents answers =>
      simp only [step, Option.ite_none_right_eq_some, Option.some.injEq] at h
      exact .inl ⟨rfl, .inr (.inr ⟨order, revents, answers, rfl, h.1, h.2.symm⟩)⟩
    | stop answers => cases h
    | interrupted => exact .inl ⟨rfl, .inl ⟨.inl rfl, (Option.some.inj h).symm⟩⟩
    | timeout => exact .inl ⟨rfl, .inl ⟨.inr rfl, (Option.some.inj h).symm⟩⟩
    | failed => exact .inl ⟨rfl, .inr (.inl ⟨rfl, (Option.some.inj h).symm⟩)⟩
  | stopping =>
    cases x with
    | stop answers => exact .inr ⟨rfl, answers, rfl, (Option.some.inj h).symm⟩
    | _ => cases h
  | stopped => cases x <;> cases h
  | halted e => cases x <;> cases h

theorem registered_tick {order : List Fd} {revents : List UInt16} {u : Unit} (hreg : Registered s)
    (hfits : Fits s order revents) (h : tick s order revents s l = .ret u s' l') : Registered s' := by
  obtain ⟨hnodup, hmem⟩ := entries_of_perm hfits.1
  have hfds := map_fd_drop_polled hfits.2
  refine (ahead_ret hreg (by rwa [hfds]) (fun pfd hp => ?_) h).1
  have hfd : pfd.fd ∈ order := hfds ▸ List.mem_map_of_mem hp
  exact (hmem _).1 hfd

/-- At the top of `RunLoop`. -/
theorem registered {s : State} (h : server.Reachable s) (hloop : s.phase = .loop) : Registered s.server := by
  refine h.invariant (fun s => s.phase = .loop → Registered s.server) ?_ (fun s x s' _ ih _ hst => ?_) hloop
  · rintro s ⟨ls, rfl⟩ -
    refine ⟨numbered_start ls _, fun fd c hc => ?_, fun fd hfd => ?_, fun fd hfd => ?_⟩
    · simp [Server.start] at hc
    · simp [Server.start] at hfd
    · exact if_pos hfd
  · intro hloop
    rcases step_cases hst with ⟨hp, ⟨-, rfl⟩ | ⟨-, rfl⟩ | ⟨order, revents, answers, -, hfits, rfl⟩⟩ |
      ⟨-, answers, -, rfl⟩
    · exact ih hp
    · cases hloop
    · cases ho : tick s.server order revents s.server answers with
      | ret u t l => exact registered_tick (ih hp) hfits ho
      | halt e t =>
        rw [ho] at hloop
        cases hloop
    · cases ho : stop s.server answers with
      | ret u t l =>
        rw [ho] at hloop
        cases hloop
      | halt e t =>
        rw [ho] at hloop
        cases hloop

/-! ## The entries -/

/-- The listeners in order, then one entry for each client, with `POLLOUT` if its queue is not empty. -/
def PollSet (s : Server) (pfds : List Pollfd) : Prop :=
  ∃ entries, pfds = s.listenSockets.map (Pollfd.mk · pollIn 0) ++ entries ∧ (entries.map (·.fd)).Nodup ∧
    (∀ fd, fd ∈ entries.map (·.fd) ↔ fd ∈ s.clients) ∧
      ∀ pfd ∈ entries, ∀ c ∈ s.clients.lookup pfd.fd, pfd.events &&& pollOut ≠ 0 ↔ c.sendQueue ≠ []

theorem pollSet_rebuildPollSet {order : List Fd} (hperm : order.Perm s.clients.keys) :
    PollSet s (rebuildPollSet s order) := by
  obtain ⟨hnodup, hmem⟩ := entries_of_perm hperm
  refine ⟨order.map (clientEntry s), rfl, ?_⟩
  rw [map_fd_clientEntry]
  refine ⟨hnodup, hmem, fun pfd hp c hc => ?_⟩
  obtain ⟨fd, -, rfl⟩ := List.mem_map.1 hp
  rw [clientEntry_fd, Option.mem_def] at hc
  rw [clientEntry, hc]
  have hin : pollIn &&& pollOut = 0 := by decide
  have hout : (pollIn ||| pollOut) &&& pollOut ≠ 0 := by decide
  cases hq : c.sendQueue with
  | nil => simp [ClientSession.isWantSend, hq, hin]
  | cons msg rest => simp [ClientSession.isWantSend, hq, hout]

/-- In the state `t` the entry is handled for the session `c`: it is the one at the descriptor, and its handler neither
touches another descriptor nor does more to another session than post it what it has read. -/
structure AppliedTo (c : ClientSession) (pfd : Pollfd) (t : Server) (l : List Answer) : Prop where
  own : ∃ c', t.clients.lookup pfd.fd = some c' ∧ c'.id = c.id ∧ c'.socket = some pfd.fd
  others : ∃ chunks : List (List UInt8), ∀ g, g ≠ pfd.fd →
    (handleClient pfd t l).state.clients.lookup g = (t.clients.lookup g).map fun d => chunks.foldl (·.postSend ·) d
  closes : ∀ g, g ≠ pfd.fd → (handleClient pfd t l).state.closes g = t.closes g

theorem appliedTo {c' : ClientSession} {pfd : Pollfd} (hreg : Registered t) (hc' : t.clients.lookup pfd.fd = some c')
    (hid : c'.id = c.id) (l : List Answer) : AppliedTo c pfd t l := by
  obtain ⟨chunks, t', hb, hend⟩ := handleClient_spec hreg hc' l
  have hstate : (handleClient pfd t l).state = t' ∨ (handleClient pfd t l).state = dropClient pfd.fd t' := by
    rcases hend with ⟨k, hk⟩ | ⟨k, hk⟩ | ⟨e, he⟩
    · exact .inl (congrArg Outcome.state hk)
    · exact .inr (congrArg Outcome.state hk)
    · exact .inl (congrArg Outcome.state he)
  refine ⟨⟨c', hc', hid, hreg.socket _ c' hc'⟩, ⟨chunks, fun g hg => ?_⟩, fun g hg => ?_⟩
  · rcases hstate with hs | hs
    · rw [hs, hb.others g hg]
    · rw [hs, lookup_dropClient hg, hb.others g hg]
  · rcases hstate with hs | hs
    · rw [hs, hb.closes]
    · rw [hs, closes_dropClient hg, hb.closes]

/-- The handlers of the listeners and of the entries before it leave the session of an entry alone. -/
theorem entry_stays {order : List Fd} {revents : List UInt16} {pre post : List Pollfd} {pfd : Pollfd} {u : Unit}
    (hreg : Registered s) (hfits : Fits s order revents)
    (hsplit : (polled s order revents).drop s.listenSockets.length = pre ++ pfd :: post)
    (h : (do
      handleListeners ((polled s order revents).take s.listenSockets.length)
      handleClients pre : Prog Server Answer Unit) s l = .ret u t l') : Registered t ∧ Stays pfd.fd s t := by
  obtain ⟨hnodup, hmem⟩ := entries_of_perm hfits.1
  have hfds := map_fd_drop_polled hfits.2
  rw [hsplit, List.map_append, List.map_cons] at hfds
  rw [← hfds] at hnodup hmem
  have hin : ∀ p ∈ pre, p.fd ∈ s.clients := fun p hp =>
    (hmem p.fd).1 (List.mem_append_left _ (List.mem_map_of_mem hp))
  have hnot : pfd.fd ∉ pre.map (·.fd) := fun hp =>
    (List.nodup_append.1 hnodup).2.2 _ hp _ List.mem_cons_self rfl
  obtain ⟨hregt, hstays⟩ := ahead_ret hreg (List.nodup_append.1 hnodup).1 hin h
  exact ⟨hregt, hstays _ hnot⟩

/-- Events reach the session they were observed for. -/
structure Routed (s : Server) : Prop where
  registered : Registered s
  pollSet : ∀ order, order.Perm s.clients.keys → PollSet s (rebuildPollSet s order)
  /-- `t` is the state in which the entry `pfd` is handled; the sessions accepted before have numbers from `s.count`
  on. -/
  entry : ∀ order revents, Fits s order revents → ∀ pre pfd post,
    (polled s order revents).drop s.listenSockets.length = pre ++ pfd :: post → ∀ answers u t l,
      (do
        handleListeners ((polled s order revents).take s.listenSockets.length)
        handleClients pre : Prog Server Answer Unit) s answers = .ret u t l →
      ∃ c, s.clients.lookup pfd.fd = some c ∧ c.id < s.count ∧ AppliedTo c pfd t l

/-- **Every entry is handled for the session that had the descriptor when `poll` was called**, whatever the answers. -/
theorem registry (h : server.Reachable ⟨.loop, s⟩) : Routed s := by
  have hreg : Registered s := registered h rfl
  refine ⟨hreg, fun order hperm => pollSet_rebuildPollSet hperm,
    fun order revents hfits pre pfd post hsplit answers u t l hret => ?_⟩
  obtain ⟨-, hmem⟩ := entries_of_perm hfits.1
  have hfds := map_fd_drop_polled hfits.2
  rw [hsplit, List.map_append, List.map_cons] at hfds
  have hfd : pfd.fd ∈ order := hfds ▸ List.mem_append_right _ List.mem_cons_self
  obtain ⟨c, hc⟩ := mem_clients.1 ((hmem _).1 hfd)
  obtain ⟨hregt, hstays⟩ := entry_stays hreg hfits hsplit hret
  obtain ⟨c', hc', hid, -⟩ := hstays c hc
  exact ⟨c, hc, hreg.numbered.lt _ c hc, appliedTo hregt hc' hid l⟩

/-- One client closes its connection, and the next iteration hands out its descriptor again. -/
def reuseRun : List Input :=
  [.ready [] [pollIn] [.accepted 5, .accepted 6, .refused .EAGAIN],
   .ready [5, 6] [0, pollIn, 0] [.recv .closed, .recv .closed],
   .ready [6] [pollIn, 0] [.accepted 5, .refused .EAGAIN]]

theorem registry_reuse : ∃ s, server.run ⟨.loop, .start [3] fun _ => none⟩ reuseRun = some ⟨.loop, s⟩ ∧
    (s.clients.lookup 5).map (·.id) = some 2 ∧ Routed s := by
  have hrun : (server.run ⟨.loop, .start [3] fun _ => none⟩ reuseRun).map
      (fun s => (s.phase, (s.server.clients.lookup 5).map (·.id))) = some (.loop, some 2) := by decide +kernel
  obtain ⟨⟨phase, s⟩, hs, hq⟩ := Option.map_eq_some_iff.1 hrun
  simp only [Prod.mk.injEq] at hq
  obtain ⟨rfl, hid⟩ := hq
  exact ⟨s, hs, hid, registry (System.reachable_of_run ⟨[3], rfl⟩ hs)⟩

end TcpChat.Poll
