import TcpChat.Poll.Agree

/-!
# What one peer can do

A run is compared with the one in which a client does nothing but deliver its data, and close its connection in order
when it has left.

* `polite` — the input of an iteration with the entry of that session replaced by a polite one;
* `one_peer` — as long as no `send` of `Write` meets a broken connection, the server goes on and all other sessions
  are as in the polite run;
* `one_peer_killed` — one such `send` ends the server.
-/

namespace TcpChat.Poll

open TcpChat.Lib TcpChat.EventLoop

variable {a : ℕ} {s s' t : Server} {fd g : Fd} {l l' : List Answer} {c d : ClientSession}

/-! ## The entry of the session -/

/-- A client that delivers data, and then goes on or, if `left`, closes its connection in order. -/
def politeAnswers (chunks : List (List UInt8)) (left : Bool) : List Answer :=
  chunks.map (fun b => Answer.recv (.bytes b)) ++
    if left then [Answer.recv .closed, Answer.recv .closed] else [Answer.recv (.error .EAGAIN)]

/-- `Read` broadcasts the data. -/
theorem read_chunks {this : ℕ} {chunks : List (List UInt8)} (hchunks : ∀ b ∈ chunks, b ≠ [] ∧ b.length ≤ recvBuf)
    (l : List Answer) : read this s (chunks.map (fun b => .recv (.bytes b)) ++ l) =
      read this (chunks.foldl (fun s b => broadcastMsg b this s) s) l := by
  induction chunks generalizing s with
  | nil => rfl
  | cons b chunks ih =>
    have hb := hchunks b List.mem_cons_self
    rw [List.foldl_cons, ← ih fun b' hb' => hchunks b' (List.mem_cons_of_mem b hb')]
    exact if_pos hb

/-- The handler of an entry with nothing but `POLLIN`. -/
theorem handleClient_pollIn {pfd : Pollfd} (hc : s.clients.lookup pfd.fd = some c) (l : List Answer) :
    handleClient { pfd with revents := pollIn } s l =
      match read c.id s l with
      | .ret true t k => .ret () t k
      | .ret false t k => closeClient pfd.fd t k
      | .halt e t => .halt e t := by
  have herr : pollIn &&& (pollErr ||| pollHup ||| pollNval) = 0 := by decide
  have hin : pollIn &&& pollIn ≠ 0 := by decide
  have hout : pollIn &&& pollOut = 0 := by decide
  unfold handleClient
  simp only [herr, hout, ne_eq, not_true_eq_false, if_false, Prog.bind_apply, Prog.get, hc, if_pos hin]
  cases hread : read c.id s l with
  | ret b t k => cases b <;> rfl
  | halt e t => rfl

theorem Agree.registered (h : Agree a s t) (hreg : Registered s) : Registered t := by
  refine hreg.older (fun fd d hd => ?_) h.count h.listenSockets fun fd _ => by rw [h.closes]
  obtain ⟨c, hc⟩ := mem_clients.1 (h.mem.1 (mem_clients.2 ⟨d, hd⟩))
  obtain ⟨d', hd', hsim⟩ := h.clients fd c hc
  rw [hd, Option.some.injEq] at hd'
  subst hd'
  exact ⟨c, hc, hsim.id, hsim.socket⟩

theorem busy_foldl {chunks : List (List UInt8)} (hreg : Registered s) (hc : s.clients.lookup fd = some c)
    (hchunks : ∀ b ∈ chunks, b ≠ [] ∧ b.length ≤ recvBuf) :
    Busy fd c chunks s (chunks.foldl (fun s b => broadcastMsg b c.id s) s) := by
  induction chunks using List.reverseRecOn with
  | nil => exact .refl hc
  | append_singleton chunks b ih =>
    rw [List.foldl_concat]
    rw [List.forall_mem_append] at hchunks
    exact (ih hchunks.1).broadcastMsg hreg hc (hchunks.2 b (List.mem_singleton.2 rfl))

theorem similar_foldl {chunks : List (List UInt8)} (h : Similar a c d) :
    Similar a (chunks.foldl (·.postSend ·) c) (chunks.foldl (·.postSend ·) d) := by
  induction chunks generalizing c d with
  | nil => exact h
  | cons b chunks ih => exact ih (h.postSend b)

/-- The handlers of the session in both states, with the same data. -/
theorem Agree.busy {chunks : List (List UInt8)} {s' t' : Server} (h : Agree a s t) (hid : c.id = a)
    (hsim : Similar a c d) (hs : Busy fd c chunks s s') (ht : Busy fd d chunks t t') : Agree a s' t' where
  running := ht.running.trans (h.running.trans hs.running.symm)
  listenSockets := ht.listenSockets.trans (h.listenSockets.trans hs.listenSockets.symm)
  closes := ht.closes.trans (h.closes.trans hs.closes.symm)
  count := ht.count.trans (h.count.trans hs.count.symm)
  log := by rw [ht.log, hs.log, h.log, hsim.id]
  keys := ht.keys.trans (h.keys.trans hs.keys.symm)
  clients g e he := by
    by_cases hg : g = fd
    · subst hg
      obtain ⟨c', hc', hid', hsock', hsince'⟩ := hs.own
      obtain ⟨d', hd', hidd, hsockd, hsinced⟩ := ht.own
      rw [hc', Option.some.injEq] at he
      subst he
      refine ⟨d', hd', hidd.trans (hsim.id.trans hid'.symm), hsockd.trans (hsim.socket.trans hsock'.symm),
        hsinced.trans (hsim.since.trans hsince'.symm), fun hne => ?_⟩
      exact absurd (hid'.trans hid) hne
    · rw [hs.others g hg, Option.map_eq_some_iff] at he
      obtain ⟨c₀, hc₀, rfl⟩ := he
      obtain ⟨d₀, hd₀, hsim₀⟩ := h.clients g c₀ hc₀
      refine ⟨_, ?_, similar_foldl hsim₀⟩
      rw [ht.others g hg, hd₀, Option.map_some]

/-- What has been broadcast between two states. -/
def received (s s' : Server) : List (List UInt8) := (s'.log.drop s.log.length).map (·.msg)

theorem received_of_busy {chunks : List (List UInt8)} (h : Busy fd c chunks s t) : received s t = chunks := by
  rw [received, h.log, List.drop_left, List.map_map]
  exact List.map_id' _

/-- **The entry of the session `a`**: a polite client with the same data leads to the same state, but for its queue. -/
theorem polite_entry {pfd : Pollfd} (h : Agree a s t) (hreg : Registered s) (hc : s.clients.lookup pfd.fd = some c)
    (hid : c.id = a) (l : List Answer) (hkilled : ∀ s', handleClient pfd s l ≠ .halt .killed s') :
    match handleClient pfd s l with
    | .ret _ s' _ => ∃ t', Agree a s' t' ∧ ∀ k, handleClient { pfd with revents := pollIn } t
        (politeAnswers (received s s') (decide (pfd.fd ∉ s'.clients)) ++ k) = .ret () t' k
    | .halt e s' => ∃ t', Agree a s' t' ∧ handleClient { pfd with revents := pollIn } t
        ((received s s').map fun b => .recv (.bytes b)) = .halt e t' := by
  obtain ⟨d, hd, hsim⟩ := h.clients pfd.fd c hc
  obtain ⟨chunks, s₁, hb, hend⟩ := handleClient_spec hreg hc l
  have hregt := h.registered hreg
  have hbt : Busy pfd.fd d chunks t (chunks.foldl (fun s b => broadcastMsg b d.id s) t) :=
    busy_foldl hregt hd hb.received
  have hagree := h.busy hid hsim hb hbt
  have hrun := fun k => handleClient_pollIn hd (chunks.map (fun b => .recv (.bytes b)) ++ k)
  obtain ⟨c', hc', -⟩ := hb.own
  obtain ⟨d', hd', -, hsock, -⟩ := hbt.own
  have hsockt : d'.socket = some pfd.fd := hsock.trans (hregt.socket _ d hd)
  simp only [read_chunks hb.received] at hrun
  rcases hend with ⟨l', ho⟩ | ⟨l', ho⟩ | ⟨e, ho⟩
  · -- it goes on
    rw [ho]
    refine ⟨_, hagree, fun k => ?_⟩
    have hin : pfd.fd ∈ s₁.clients := mem_clients.2 ⟨c', hc'⟩
    rw [received_of_busy hb, decide_eq_false (not_not.2 hin), politeAnswers, if_neg Bool.false_ne_true,
      List.append_assoc, hrun]
    rfl
  · -- it is closed
    rw [ho]
    refine ⟨_, hagree.dropClient, fun k => ?_⟩
    have hout : pfd.fd ∉ (dropClient pfd.fd s₁).clients := by
      intro hin
      obtain ⟨e, he⟩ := mem_clients.1 hin
      rw [lookup_dropClient_self] at he
      cases he
    have hlog : received s (dropClient pfd.fd s₁) = received s s₁ := rfl
    rw [hlog, received_of_busy hb, decide_eq_true hout, politeAnswers, if_pos rfl, List.append_assoc, hrun]
    exact closeClient_apply hd' hsockt _
  · -- it is in a call
    rw [ho]
    refine ⟨_, hagree, ?_⟩
    have he : e = .blocked := by
      cases e with
      | blocked => rfl
      | killed => exact absurd ho (hkilled s₁)
    have hnil := hrun []
    rw [List.append_nil] at hnil
    rw [received_of_busy hb, hnil, he]
    rfl

/-! ## One iteration -/

/-- The entries of the descriptors, without the requested events, which the handlers do not read. -/
def entries (fds : List Fd) (revents : List UInt16) : List Pollfd := fds.zipWith (fun fd r => ⟨fd, 0, r⟩) revents

/-- The answers of a polite client in its entry, and the answers behind the entry. -/
def politeEntry (pfd : Pollfd) (s : Server) (l : List Answer) : List Answer :=
  match handleClient pfd s l with
  | .ret _ s' after => politeAnswers (received s s') (decide (pfd.fd ∉ s'.clients)) ++ after
  | .halt _ s' => (received s s').map fun b => .recv (.bytes b)

/-- The input in which the entry of the session `a` is polite: nothing but `POLLIN`, the data that the session
delivers in the iteration, and `EAGAIN`, or the end of the connection if the session is gone at the end of its
handler. -/
def polite (a : ℕ) (s : Server) : Input → Input
  | .ready order revents answers =>
    match order.findIdx? fun fd => (s.clients.lookup fd).any fun c => c.id = a with
    | none => .ready order revents answers
    | some i =>
      let n := s.listenSockets.length
      let pfds := entries order (revents.drop n)
      .ready order (revents.set (n + i) pollIn)
        (match (do
            handleListeners (entries s.listenSockets (revents.take n))
            handleClients (pfds.take i) : Prog Server Answer Unit) s answers, pfds.drop i with
        | .ret _ s' l, pfd :: _ => answers.take (answers.length - l.length) ++ politeEntry pfd s' l
        | _, _ => answers)
  | x => x

theorem handleListeners_map (pfds : List Pollfd) :
    handleListeners (pfds.map fun pfd => ⟨pfd.fd, 0, pfd.revents⟩) = handleListeners pfds := by
  induction pfds with
  | nil => rfl
  | cons pfd pfds ih => rw [List.map_cons, handleListeners, handleListeners, ih]

theorem handleClients_map (pfds : List Pollfd) :
    handleClients (pfds.map fun pfd => ⟨pfd.fd, 0, pfd.revents⟩) = handleClients pfds := by
  induction pfds with
  | nil => rfl
  | cons pfd pfds ih =>
    rw [List.map_cons, handleClients, Prog.each, Prog.each, ← handleClients, ih]
    rfl

theorem map_zipWith_entries (pfds : List Pollfd) (revents : List UInt16) :
    ((pfds.zipWith (fun pfd r => { pfd with revents := r }) revents).map fun pfd => (⟨pfd.fd, 0, pfd.revents⟩ : Pollfd)) =
      entries (pfds.map (·.fd)) revents := by
  rw [List.map_zipWith, entries, List.zipWith_map_left]

/-- An iteration, by the entries. -/
theorem tick_eq {order : List Fd} {revents : List UInt16} : tick s order revents = (do
    handleListeners (entries s.listenSockets (revents.take s.listenSockets.length))
    handleClients (entries order (revents.drop s.listenSockets.length)) : Prog Server Answer Unit) := by
  have hall := map_zipWith_entries (rebuildPollSet s order) revents
  rw [map_fd_rebuildPollSet] at hall
  have htake : ((polled s order revents).take s.listenSockets.length).map
      (fun pfd => (⟨pfd.fd, 0, pfd.revents⟩ : Pollfd)) =
      entries s.listenSockets (revents.take s.listenSockets.length) := by
    rw [List.map_take, polled, hall, entries, List.take_zipWith, List.take_left, entries]
  have hdrop : ((polled s order revents).drop s.listenSockets.length).map
      (fun pfd => (⟨pfd.fd, 0, pfd.revents⟩ : Pollfd)) = entries order (revents.drop s.listenSockets.length) := by
    rw [List.map_drop, polled, hall, entries, List.drop_zipWith, List.drop_left, entries]
  rw [tick, ← htake, ← hdrop, handleListeners_map, handleClients_map]

/-- The outcomes are the same, in states that agree. -/
def Mirrors (a : ℕ) : Outcome Server Answer Unit → Outcome Server Answer Unit → Prop
  | .ret _ s _, .ret _ t _ => Agree a s t
  | .halt e s, .halt e' t => e' = e ∧ Agree a s t
  | _, _ => False

theorem mem_entries {pfd : Pollfd} {fds : List Fd} {revents : List UInt16} (h : pfd ∈ entries fds revents) :
    pfd.fd ∈ fds ∧ pfd.revents ∈ revents := by
  induction fds generalizing revents with
  | nil => cases h
  | cons fd fds ih =>
    cases revents with
    | nil => cases h
    | cons r revents =>
      rcases List.mem_cons.1 h with rfl | h
      · exact ⟨List.mem_cons_self, List.mem_cons_self⟩
      · exact ⟨List.mem_cons_of_mem fd (ih h).1, List.mem_cons_of_mem r (ih h).2⟩

/-- The listeners and the clients `fds`, none of which is the session `a`. -/
theorem tracks_ahead {fds : List Fd} (rl rs : List UInt16) (h : Agree a s t) (hreg : Registered s)
    (hin : ∀ fd ∈ fds, fd ∈ s.clients) (hforeign : ∀ fd ∈ fds, ∀ c, s.clients.lookup fd = some c → c.id ≠ a)
    (l : List Answer) :
    Prog.TracksOn (Agree a) (do
      handleListeners (entries s.listenSockets rl)
      handleClients (entries fds rs) : Prog Server Answer Unit) s t l := by
  refine (tracks_handleListeners h l).bind (fun u s₁ t₁ l₁ hret hagree => ?_) fun _ _ h => h
  obtain ⟨-, hold, -⟩ := handleListeners_ret hreg hret
  have hapart : Apart a fds s₁ t₁ := by
    refine ⟨hagree, fun fd hfd c hc => ?_⟩
    obtain ⟨c₀, hc₀⟩ := mem_clients.1 (hin fd hfd)
    rw [hold fd c₀ hc₀, Option.some.injEq] at hc
    exact hc ▸ hforeign fd hfd c₀ hc₀
  exact (hapart.tracks_handleClients fun pfd hp => (mem_entries hp).1).imp (fun _ _ h => h.agree) l₁

theorem mirrors_of_tracksOn {m : Prog Server Answer Unit} (h : Prog.TracksOn (Agree a) m s t l) :
    Mirrors a (m s l) (m t l) := by
  cases hml : m s l with
  | ret u s' l' =>
    obtain ⟨used, t', rfl, hagree, hk⟩ := h.ret hml
    rw [hk]
    exact hagree
  | halt e s' =>
    obtain ⟨t', ht', hagree⟩ := h.halt hml
    rw [ht']
    exact ⟨rfl, hagree⟩

theorem entries_append_cons {o₁ o₂ : List Fd} {r₁ r₂ : List UInt16} {r : UInt16} (h : r₁.length = o₁.length) :
    entries (o₁ ++ fd :: o₂) (r₁ ++ r :: r₂) = entries o₁ r₁ ++ ⟨fd, 0, r⟩ :: entries o₂ r₂ := by
  rw [entries, List.zipWith_append h.symm, List.zipWith_cons_cons]
  rfl

/-- An iteration, with one entry in the middle. -/
theorem tick_split {o₁ o₂ : List Fd} {rl r₁ r₂ : List UInt16} {r : UInt16} (hl : rl.length = s.listenSockets.length)
    (h : r₁.length = o₁.length) : tick s (o₁ ++ fd :: o₂) (rl ++ (r₁ ++ r :: r₂)) = (do
      handleListeners (entries s.listenSockets rl)
      handleClients (entries o₁ r₁) : Prog Server Answer Unit) >>= fun _ =>
        handleClient ⟨fd, 0, r⟩ >>= fun _ => handleClients (entries o₂ r₂) := by
  rw [tick_eq, ← hl, List.take_left, List.drop_left, entries_append_cons h, handleClients, Prog.each_append_cons]
  exact Prog.bind_assoc.symm

theorem Registered.foreign (hreg : Registered s) (hc : s.clients.lookup fd = some c) (hid : c.id = a) (hg : g ≠ fd)
    (hd : s.clients.lookup g = some d) : d.id ≠ a :=
  fun he => hg (hreg.numbered.inj g fd d c hd hc (he.trans hid.symm))

/-- The polite input, with the entry of the session in the middle. -/
theorem polite_split {o₁ : List Fd} (o₂ : List Fd) {rl r₁ : List UInt16} (r : UInt16) (r₂ : List UInt16)
    (hreg : Registered s) (hc : s.clients.lookup fd = some c) (hid : c.id = a) (hnot : fd ∉ o₁)
    (hl : rl.length = s.listenSockets.length) (h : r₁.length = o₁.length) (l : List Answer) :
    polite a s (.ready (o₁ ++ fd :: o₂) (rl ++ (r₁ ++ r :: r₂)) l) =
      .ready (o₁ ++ fd :: o₂) (rl ++ (r₁ ++ pollIn :: r₂))
        (match (do
            handleListeners (entries s.listenSockets rl)
            handleClients (entries o₁ r₁) : Prog Server Answer Unit) s l with
        | .ret _ s' l' => l.take (l.length - l'.length) ++ politeEntry ⟨fd, 0, r⟩ s' l'
        | .halt _ _ => l) := by
  have hfind : (o₁ ++ fd :: o₂).findIdx? (fun g => (s.clients.lookup g).any fun c => c.id = a) = some o₁.length := by
    have hnone : o₁.findIdx? (fun g => (s.clients.lookup g).any fun c => c.id = a) = none := by
      refine List.findIdx?_eq_none_iff.2 fun g hg => ?_
      cases hd : s.clients.lookup g with
      | none => rfl
      | some d =>
        have hne : g ≠ fd := fun he => hnot (he ▸ hg)
        exact decide_eq_false (hreg.foreign hc hid hne hd)
    rw [List.findIdx?_append, hnone, List.findIdx?_cons, hc]
    simp [hid]
  have hset : (rl ++ (r₁ ++ r :: r₂)).set (s.listenSockets.length + o₁.length) pollIn =
      rl ++ (r₁ ++ pollIn :: r₂) := by
    rw [← hl, ← h, List.set_append_right _ _ (Nat.le_add_right _ _), Nat.add_sub_cancel_left,
      List.set_append_right _ _ le_rfl, Nat.sub_self, List.set_cons_zero]
  have hlength : (entries o₁ r₁).length = o₁.length := by simp [entries, h]
  have htake : (entries (o₁ ++ fd :: o₂) (r₁ ++ r :: r₂)).take o₁.length = entries o₁ r₁ := by
    rw [entries_append_cons h]
    exact List.take_left' hlength
  have hdrop : (entries (o₁ ++ fd :: o₂) (r₁ ++ r :: r₂)).drop o₁.length = ⟨fd, 0, r⟩ :: entries o₂ r₂ := by
    rw [entries_append_cons h]
    exact List.drop_left' hlength
  unfold polite
  simp only [hfind]
  rw [hset, ← hl, List.take_left, List.drop_left, htake, hdrop]
  cases (handleListeners (entries s.listenSockets rl) >>= fun _ => handleClients (entries o₁ r₁)) s l <;> rfl

/-- The entry of the session and those behind it. -/
theorem mirrors_entry {fds : List Fd} {rs : List UInt16} {pfd : Pollfd} (h : Agree a s t) (hreg : Registered s)
    (hc : s.clients.lookup pfd.fd = some c) (hid : c.id = a) (hnot : pfd.fd ∉ fds) (hin : ∀ g ∈ fds, g ∈ s.clients)
    (l : List Answer) (hkilled : ∀ s', handleClient pfd s l ≠ .halt .killed s') :
    Mirrors a ((handleClient pfd >>= fun _ => handleClients (entries fds rs)) s l)
      ((handleClient { pfd with revents := pollIn } >>= fun _ => handleClients (entries fds rs)) t
        (politeEntry pfd s l)) := by
  have hentry := polite_entry h hreg hc hid l hkilled
  rw [politeEntry]
  cases ho : handleClient pfd s l with
  | halt e s' =>
    rw [ho] at hentry
    obtain ⟨t', hagree, ht'⟩ := hentry
    rw [Prog.bind_of_halt ho, Prog.bind_of_halt ht']
    exact ⟨rfl, hagree⟩
  | ret u s' after =>
    rw [ho] at hentry
    obtain ⟨t', hagree, ht'⟩ := hentry
    rw [Prog.bind_of_ret ho, Prog.bind_of_ret (ht' after)]
    obtain ⟨-, -, -, hstays⟩ := handleClient_ret hreg hc ho
    have hapart : Apart a fds s' t' := by
      refine ⟨hagree, fun g hg e he => ?_⟩
      have hne : g ≠ pfd.fd := fun heq => hnot (heq ▸ hg)
      obtain ⟨d, hd⟩ := mem_clients.1 (hin g hg)
      obtain ⟨d', hd', hidd, -⟩ := hstays g hne d hd
      rw [he, Option.some.injEq] at hd'
      rw [hd', hidd]
      exact hreg.foreign hc hid hne hd
    have hrest : Prog.Tracks (Apart a fds) (handleClients (entries fds rs)) s' t' :=
      hapart.tracks_handleClients fun p hp => (mem_entries hp).1
    exact mirrors_of_tracksOn ((hrest.imp fun _ _ h => h.agree) after)

theorem exists_append {xs : List UInt16} {m n : ℕ} (h : xs.length = m + n) :
    ∃ ys zs, xs = ys ++ zs ∧ ys.length = m ∧ zs.length = n :=
  ⟨xs.take m, xs.drop m, (List.take_append_drop m xs).symm, by simp [h], by simp [h]⟩

theorem map_fd_entries {fds : List Fd} {revents : List UInt16} (h : revents.length = fds.length) :
    (entries fds revents).map (·.fd) = fds := by
  rw [entries, ← List.map_uncurry_zip_eq_zipWith, List.map_map]
  exact List.map_fst_zip (Nat.le_of_eq h.symm)

/-- The iteration, for an input with the entry of the session `a` in the middle. -/
theorem tick_entry {o₁ o₂ : List Fd} {rl r₁ r₂ : List UInt16} {r : UInt16} (h : Agree a s t) (hreg : Registered s)
    (hnodup : (o₁ ++ fd :: o₂).Nodup) (hin : ∀ g ∈ o₁ ++ fd :: o₂, g ∈ s.clients)
    (hl : rl.length = s.listenSockets.length) (hr : r₁.length = o₁.length) (hc : s.clients.lookup fd = some c) (hid : c.id = a)
    (hkilled : ∀ s', tick s (o₁ ++ fd :: o₂) (rl ++ (r₁ ++ r :: r₂)) s l ≠ .halt .killed s') :
    ∃ l', polite a s (.ready (o₁ ++ fd :: o₂) (rl ++ (r₁ ++ r :: r₂)) l) =
        .ready (o₁ ++ fd :: o₂) (rl ++ (r₁ ++ pollIn :: r₂)) l' ∧
      Mirrors a (tick s (o₁ ++ fd :: o₂) (rl ++ (r₁ ++ r :: r₂)) s l)
        (tick t (o₁ ++ fd :: o₂) (rl ++ (r₁ ++ pollIn :: r₂)) t l') := by
  have hnot : fd ∉ o₁ ∧ fd ∉ o₂ := by
    rw [List.nodup_append, List.nodup_cons] at hnodup
    exact ⟨fun hp => hnodup.2.2 fd hp fd List.mem_cons_self rfl, hnodup.2.1.1⟩
  have hne : ∀ g ∈ o₁, g ≠ fd := fun g hg he => hnot.1 (he ▸ hg)
  have hin₁ : ∀ g ∈ o₁, g ∈ s.clients := fun g hg => hin g (List.mem_append_left _ hg)
  have hlt : rl.length = t.listenSockets.length := hl.trans (congrArg List.length h.listenSockets).symm
  have hahead := tracks_ahead rl r₁ h hreg hin₁ (fun g hg _ => hreg.foreign hc hid (hne g hg)) l
  have hpolite := polite_split o₂ r r₂ hreg hc hid hnot.1 hl hr l
  rw [tick_split hl hr] at hkilled ⊢
  rw [tick_split hlt hr, h.listenSockets]
  cases ho : (do
      handleListeners (entries s.listenSockets rl)
      handleClients (entries o₁ r₁) : Prog Server Answer Unit) s l with
  | halt e s₁ =>
    obtain ⟨t₁, ht₁, hagree⟩ := hahead.halt ho
    rw [ho] at hpolite
    refine ⟨l, hpolite, ?_⟩
    rw [Prog.bind_of_halt ho, Prog.bind_of_halt ht₁]
    exact ⟨rfl, hagree⟩
  | ret u s₁ l₁ =>
    obtain ⟨used, t₁, rfl, hagree, hk⟩ := hahead.ret ho
    have hnodup₁ : ((entries o₁ r₁).map (·.fd)).Nodup := by
      rw [map_fd_entries hr]
      exact (List.nodup_append.1 hnodup).1
    obtain ⟨hreg₁, hstays⟩ := ahead_ret hreg hnodup₁ (fun p hp => hin₁ _ (mem_entries hp).1) ho
    rw [map_fd_entries hr] at hstays
    obtain ⟨c₁, hc₁, hid₁, -⟩ := hstays fd hnot.1 c hc
    have hin₂ : ∀ g ∈ o₂, g ∈ s₁.clients := by
      intro g hg
      obtain ⟨d, hd⟩ := mem_clients.1 (hin g (List.mem_append_right _ (List.mem_cons_of_mem _ hg)))
      have hg₁ : g ∉ o₁ := fun hp => (List.nodup_append.1 hnodup).2.2 g hp g (List.mem_cons_of_mem _ hg) rfl
      obtain ⟨d', hd', -⟩ := hstays g hg₁ d hd
      exact mem_clients.2 ⟨d', hd'⟩
    have hkilled₁ : ∀ s', handleClient ⟨fd, 0, r⟩ s₁ l₁ ≠ .halt .killed s' := by
      intro s' hs'
      refine hkilled s' ?_
      rw [Prog.bind_of_ret ho, Prog.bind_of_halt hs']
    have hused : (used ++ l₁).take ((used ++ l₁).length - l₁.length) = used := by
      rw [List.length_append, Nat.add_sub_cancel, List.take_left]
    rw [ho] at hpolite
    refine ⟨used ++ politeEntry ⟨fd, 0, r⟩ s₁ l₁, hpolite.trans ?_, ?_⟩
    · exact congrArg (fun w => Input.ready _ _ (w ++ _)) hused
    rw [Prog.bind_of_ret ho, Prog.bind_of_ret (hk _)]
    exact mirrors_entry hagree hreg₁ hc₁ (hid₁.trans hid) hnot.2 hin₂ l₁ hkilled₁

/-- **One iteration** with the entry of the session `a` replaced. -/
theorem tick_polite {order : List Fd} {revents : List UInt16} (h : Agree a s t) (hreg : Registered s)
    (hfits : Fits s order revents) (hkilled : ∀ s', tick s order revents s l ≠ .halt .killed s') :
    ∃ revents' l', polite a s (.ready order revents l) = .ready order revents' l' ∧
      revents'.length = revents.length ∧
      Mirrors a (tick s order revents s l) (tick t order revents' t l') := by
  obtain ⟨hnodup, hmem⟩ := entries_of_perm hfits.1
  have hlength : revents.length = s.listenSockets.length + order.length := by
    rw [hfits.2, ← List.length_map (·.fd), map_fd_rebuildPollSet, List.length_append]
  by_cases hentry : ∃ fd ∈ order, ∃ c, s.clients.lookup fd = some c ∧ c.id = a
  · obtain ⟨fd, hfd, c, hc, hid⟩ := hentry
    obtain ⟨o₁, o₂, rfl⟩ := List.append_of_mem hfd
    rw [List.length_append] at hlength
    obtain ⟨rl, rs, rfl, hl, hrs⟩ := exists_append hlength
    obtain ⟨r₁, r', rfl, hr, hr'⟩ := exists_append hrs
    obtain ⟨r, r₂, rfl⟩ := List.exists_cons_of_length_eq_add_one hr'
    obtain ⟨l', hpolite, hmirrors⟩ := tick_entry h hreg hnodup (fun g => (hmem g).1) hl hr hc hid hkilled
    exact ⟨_, l', hpolite, by simp, hmirrors⟩
  · push Not at hentry
    have hfind : order.findIdx? (fun fd => (s.clients.lookup fd).any fun c => c.id = a) = none := by
      refine List.findIdx?_eq_none_iff.2 fun fd hfd => ?_
      cases hd : s.clients.lookup fd with
      | none => rfl
      | some d => exact decide_eq_false (hentry fd hfd d hd)
    have hpolite : polite a s (.ready order revents l) = .ready order revents l := by
      unfold polite
      simp only [hfind]
    refine ⟨_, _, hpolite, rfl, ?_⟩
    rw [tick_eq, tick_eq, h.listenSockets]
    exact mirrors_of_tracksOn (tracks_ahead _ _ h hreg (fun fd hfd => (hmem fd).1 hfd) hentry l)

/-! ## The server goes on -/

/-- The answer is not the one of a `send` on a broken connection. -/
def Whole (x : Answer) : Prop := x ≠ .send (.error .EPIPE)

instance : DecidablePred Whole := fun _ => inferInstanceAs (Decidable (_ ≠ _))

theorem safe_gracefulShutdown : Prog.Safe Whole ClientSession.gracefulShutdown := by
  intro s l h
  fun_induction ClientSession.gracefulShutdown s l with
  | case1 s b l hb ih => exact ih (List.forall_mem_cons.1 h).2
  | case3 s r l hr => exact (List.forall_mem_cons.1 h).2
  | _ => simp

theorem safe_stop_session (fd : Fd) : Prog.Safe Whole (ClientSession.stop fd) := by
  refine Prog.safe_get.bind fun s => ?_
  split
  · exact Prog.safe_pure ()
  · exact safe_gracefulShutdown.bind fun _ => Prog.safe_modify.bind fun _ => Prog.safe_modify

theorem safe_read (this : ℕ) : Prog.Safe Whole (read this) := by
  intro s l h
  unfold read
  fun_induction ClientSession.read broadcastMsg this s l with
  | case1 s b l hb ih => exact ih (List.forall_mem_cons.1 h).2
  | case3 s l => exact (List.forall_mem_cons.1 h).2
  | case4 s e l => exact (List.forall_mem_cons.1 h).2
  | _ => simp

theorem safe_write (fd : Fd) : Prog.Safe Whole (write fd) := by
  intro s l h
  unfold write
  fun_induction ClientSession.write 0 fd s l with
  | case1 => exact h
  | case3 s msg rest n l hq hn hlt => exact (List.forall_mem_cons.1 h).2
  | case4 s msg rest n l hq hn hlt ih => exact ih (List.forall_mem_cons.1 h).2
  | case5 s msg rest l hq => exact (List.forall_mem_cons.1 h).2
  | case6 s msg rest e l hq he =>
    -- the answer that the kind excludes
    exact absurd (congrArg (fun e => Answer.send (.error e)) he.1) (List.forall_mem_cons.1 h).1
  | case7 s msg rest e l hq he => exact (List.forall_mem_cons.1 h).2
  | _ => simp

theorem safe_acceptAll : Prog.Safe Whole acceptAll := by
  intro s l h
  fun_induction acceptAll s l with
  | case2 s cs l ho ih => exact ih (List.forall_mem_cons.1 h).2
  | case3 s e l => exact (List.forall_mem_cons.1 h).2
  | _ => simp

theorem safe_closeClient (fd : Fd) : Prog.Safe Whole (closeClient fd) := by
  refine Prog.safe_get.bind fun s => Prog.Safe.bind ?_ fun _ => Prog.safe_modify
  exact Prog.safe_ite ((safe_stop_session fd).bind fun _ => Prog.safe_modify) (Prog.safe_pure ())

theorem safe_handleClient (pfd : Pollfd) : Prog.Safe Whole (handleClient pfd) := by
  refine Prog.safe_ite (safe_closeClient _) (Prog.safe_get.bind fun s => ?_)
  split
  · exact Prog.safe_pure ()
  · refine (Prog.safe_ite (safe_read _) (Prog.safe_pure true)).bind fun readable => ?_
    refine Prog.safe_ite ?_ (safe_closeClient _)
    refine (Prog.safe_ite (safe_write _) (Prog.safe_pure true)).bind fun writable => ?_
    exact Prog.safe_ite (Prog.safe_pure ()) (safe_closeClient _)

theorem safe_handleListeners : ∀ pfds, Prog.Safe Whole (handleListeners pfds)
  | [] => Prog.safe_pure ()
  | _ :: pfds =>
    Prog.safe_ite Prog.safe_modify
      (Prog.safe_ite (safe_acceptAll.bind fun _ => safe_handleListeners pfds) (safe_handleListeners pfds))

theorem safe_stop : Prog.Safe Whole stop := by
  refine Prog.safe_get.bind fun s => Prog.safe_ite (Prog.safe_pure ()) ?_
  refine (Prog.safe_each safe_stop_session _).bind fun _ => Prog.safe_modify.bind fun _ => ?_
  exact (Prog.safe_each (fun fd => Prog.safe_modify) _).bind fun _ => Prog.safe_modify

theorem safe_tick (s : Server) (order : List Fd) (revents : List UInt16) : Prog.Safe Whole (tick s order revents) :=
  (safe_handleListeners _).bind fun _ => Prog.safe_each safe_handleClient _

theorem handleListeners_running {pfds : List Pollfd} {u : Unit} (hreg : Registered s)
    (hsteady : ∀ pfd ∈ pfds, pfd.revents &&& (pollErr ||| pollHup ||| pollNval) = 0)
    (h : handleListeners pfds s l = .ret u s' l') : s'.running = s.running := by
  induction pfds generalizing s l with
  | nil =>
    obtain ⟨-, rfl, rfl⟩ := Prog.pure_ret.1 h
    rfl
  | cons pfd pfds ih =>
    rw [List.forall_mem_cons] at hsteady
    unfold handleListeners at h
    rw [if_neg (not_not.2 hsteady.1)] at h
    split at h
    · obtain ⟨v, t, k, haccept, htail⟩ := Prog.bind_ret.1 h
      obtain ⟨⟨hregt, -, -⟩, hrun⟩ := acceptAll_ret hreg haccept
      exact (ih hregt hsteady.2 htail).trans hrun
    · exact ih hreg hsteady.2 h

theorem tick_running {order : List Fd} {revents : List UInt16} {u : Unit} (hreg : Registered s)
    (hfits : Fits s order revents) (hsteady : ∀ r ∈ revents.take s.listenSockets.length,
      r &&& (pollErr ||| pollHup ||| pollNval) = 0)
    (h : tick s order revents s l = .ret u s' l') : s'.running = s.running := by
  rw [tick_eq] at h
  obtain ⟨v, t, k, hlisteners, hclients⟩ := Prog.bind_ret.1 h
  have hrun := handleListeners_running hreg (fun pfd hp => hsteady _ (mem_entries hp).2) hlisteners
  obtain ⟨hregt, hold, -⟩ := handleListeners_ret hreg hlisteners
  obtain ⟨hnodup, hmem⟩ := entries_of_perm hfits.1
  have hlength : (revents.drop s.listenSockets.length).length = order.length := by
    rw [List.length_drop, hfits.2, ← List.length_map (·.fd), map_fd_rebuildPollSet, List.length_append,
      Nat.add_sub_cancel_left]
  have hin : ∀ pfd ∈ entries order (revents.drop s.listenSockets.length), pfd.fd ∈ t.clients := by
    intro pfd hp
    obtain ⟨c, hc⟩ := mem_clients.1 ((hmem _).1 (mem_entries hp).1)
    exact mem_clients.2 ⟨c, hold _ c hc⟩
  obtain ⟨-, -, hrun', -⟩ := handleClients_ret hregt (by rwa [map_fd_entries hlength]) hin hclients
  exact hrun'.trans hrun

/-! ## Runs -/

/-- No `send` of `Write` meets a broken connection. -/
def Unbroken : State → Input → Prop
  | _, .ready _ _ answers => ∀ x ∈ answers, Whole x
  | _, .stop answers => ∀ x ∈ answers, Whole x
  | _, _ => True

instance : ∀ s x, Decidable (Unbroken s x)
  | _, .ready _ _ answers => inferInstanceAs (Decidable (∀ x ∈ answers, Whole x))
  | _, .stop answers => inferInstanceAs (Decidable (∀ x ∈ answers, Whole x))
  | _, .interrupted | _, .failed | _, .timeout => isTrue trivial

/-- `poll` does not fail, and reports no error for a listener. -/
def Steady : State → Input → Prop
  | s, .ready _ revents _ =>
    ∀ r ∈ revents.take s.server.listenSockets.length, r &&& (pollErr ||| pollHup ||| pollNval) = 0
  | _, .failed => False
  | _, _ => True

/-- The run in which the session `a` is polite. -/
def politely (a : ℕ) : State → List Input → List Input
  | _, [] => []
  | s, x :: xs =>
    match step s x with
    | none => []
    | some s' => polite a s.server x :: politely a s' xs

theorem phase_of {next : Server → Phase} {m : Prog Server Answer Unit} (hnext : ∀ s, next s ≠ .halted .killed)
    (hm : Prog.Safe Whole m) (h : ∀ x ∈ l, Whole x) : (State.of next (m s l)).phase ≠ .halted .killed := by
  have hsafe := hm s l h
  cases ho : m s l with
  | ret u s' l' => exact hnext s'
  | halt e s' =>
    rw [ho] at hsafe
    exact fun he => hsafe (Phase.halted.inj he)

theorem not_killed {s : State} (h : server.Reach Unbroken s) : s.phase ≠ .halted .killed := by
  refine h.invariant (fun s => s.phase ≠ .halted .killed) ?_ fun s x s' _ ih hok hst => ?_
  · rintro s ⟨ls, rfl⟩
    exact fun h => by cases h
  rcases step_cases hst with ⟨-, ⟨-, rfl⟩ | ⟨-, rfl⟩ | ⟨order, revents, answers, rfl, -, rfl⟩⟩ | ⟨-, answers, rfl, rfl⟩
  · exact ih
  · exact fun h => by cases h
  · refine phase_of (fun s => ?_) (safe_tick _ _ _) hok
    unfold loopTest
    split <;> simp
  · exact phase_of (fun s => by simp) safe_stop hok

/-- `RunLoop` keeps running. -/
theorem keeps_running {s : State} (h : server.Reach Steady s) :
    (s.phase = .loop ∧ s.server.running = true) ∨ ∃ e, s.phase = .halted e := by
  refine h.invariant (fun s => (s.phase = .loop ∧ s.server.running = true) ∨ ∃ e, s.phase = .halted e) ?_
    fun s x s' hr ih hok hst => ?_
  · rintro s ⟨ls, rfl⟩
    exact .inl ⟨rfl, rfl⟩
  rcases step_cases hst with ⟨hp, ⟨-, rfl⟩ | ⟨rfl, -⟩ | ⟨order, revents, answers, rfl, hfits, rfl⟩⟩ | ⟨hp, -⟩
  · exact ih
  · exact absurd hok id
  · have hreg := registered (hr.mono fun _ _ _ => trivial) hp
    have hrunning : s.server.running = true := by
      rcases ih with ⟨-, hrunning⟩ | ⟨e, he⟩
      · exact hrunning
      · cases hp.symm.trans he
    cases ho : tick s.server order revents s.server answers with
    | ret u t l =>
      have hrun : t.running = true := (tick_running hreg hfits hok ho).trans hrunning
      exact .inl ⟨if_pos hrun, hrun⟩
    | halt e t => exact .inr ⟨e, rfl⟩
  · rcases ih with ⟨hloop, -⟩ | ⟨e, he⟩
    · cases hp.symm.trans hloop
    · cases hp.symm.trans he

theorem Mirrors.of {o o' : Outcome Server Answer Unit} (h : Mirrors a o o') (next : Server → Phase)
    (hnext : ∀ s t, Agree a s t → next t = next s) :
    (State.of next o').phase = (State.of next o).phase ∧ Agree a (State.of next o).server (State.of next o').server := by
  cases o with
  | ret u s l =>
    cases o' with
    | ret u' t l' => exact ⟨hnext s t h, h⟩
    | halt e' t => exact absurd h id
  | halt e s =>
    cases o' with
    | ret u' t l' => exact absurd h id
    | halt e' t =>
      obtain ⟨rfl, hagree⟩ := h
      exact ⟨rfl, hagree⟩

/-- A step of the run, and the one of the polite run. -/
theorem step_polite {s s' t : State} {x : Input} (hreg : s.phase = .loop → Registered s.server)
    (hst : step s x = some s') (hphase : t.phase = s.phase) (h : Agree a s.server t.server)
    (hkilled : s'.phase ≠ .halted .killed) :
    ∃ t', step t (polite a s.server x) = some t' ∧ t'.phase = s'.phase ∧ Agree a s'.server t'.server := by
  obtain ⟨phase, t⟩ := t
  dsimp only at hphase h
  subst hphase
  rcases step_cases hst with ⟨hp, ⟨hx, rfl⟩ | ⟨rfl, rfl⟩ | ⟨order, revents, answers, rfl, hfits, rfl⟩⟩ |
    ⟨hp, answers, rfl, rfl⟩
  · refine ⟨⟨s'.phase, t⟩, ?_, rfl, h⟩
    rw [hp]
    rcases hx with rfl | rfl <;> rfl
  · refine ⟨⟨.stopping, t⟩, ?_, rfl, h⟩
    rw [hp]
    rfl
  · have htick : ∀ s', tick s.server order revents s.server answers ≠ .halt .killed s' := by
      intro s' hs'
      rw [hs'] at hkilled
      exact hkilled rfl
    obtain ⟨revents', l', hpolite, hlength, hmirrors⟩ := tick_polite h (hreg hp) hfits htick
    have hfits' : Fits t order revents' := by
      have hfds : (rebuildPollSet t order).map (·.fd) = (rebuildPollSet s.server order).map (·.fd) := by
        rw [map_fd_rebuildPollSet, map_fd_rebuildPollSet, h.listenSockets]
      have hpollSet := congrArg List.length hfds
      rw [List.length_map, List.length_map] at hpollSet
      exact ⟨h.keys ▸ hfits.1, hlength.trans (hfits.2.trans hpollSet.symm)⟩
    obtain ⟨hphase, hagree⟩ := hmirrors.of loopTest fun s t hst => by rw [loopTest, loopTest, hst.running]
    refine ⟨_, ?_, hphase, hagree⟩
    rw [hpolite, hp]
    exact if_pos hfits'
  · obtain ⟨hphase, hagree⟩ := (mirrors_of_tracksOn (tracks_stop h answers)).of (fun _ => .stopped) fun _ _ _ => rfl
    refine ⟨_, ?_, hphase, hagree⟩
    rw [hp]
    rfl

theorem run_polite {s s' t : State} {xs : List Input} (hr : server.Reach Unbroken s) (hrun : server.run s xs = some s')
    (hok : server.Along Unbroken s xs) (hphase : t.phase = s.phase) (h : Agree a s.server t.server) :
    ∃ t', server.run t (politely a s xs) = some t' ∧ t'.phase = s'.phase ∧ Agree a s'.server t'.server := by
  induction xs generalizing s t with
  | nil =>
    cases hrun
    exact ⟨t, rfl, hphase, h⟩
  | cons x xs ih =>
    obtain ⟨s₁, hst, hrun⟩ := Option.bind_eq_some_iff.1 hrun
    obtain ⟨hx, hok⟩ := hok
    rw [hst] at hok
    have hr₁ := hr.step hx hst
    have hreg := registered (hr.mono fun _ _ _ => trivial)
    obtain ⟨t₁, ht₁, hphase₁, hagree⟩ := step_polite hreg hst hphase h (not_killed hr₁)
    obtain ⟨t', ht', hend⟩ := ih hr₁ hrun hok hphase₁ hagree
    refine ⟨t', ?_, hend⟩
    have hst' : step s x = some s₁ := hst
    rw [politely, hst']
    exact Option.bind_eq_some_iff.2 ⟨t₁, ht₁, ht'⟩

/-- **One peer cannot take the server down**, as long as no `send` of `Write` meets a broken connection: the process
is not killed, `RunLoop` goes on, and all other clients are as in the run in which the session `a` is polite. -/
theorem one_peer {ls : List Fd} {xs : List Input} {s : State} (a : ℕ)
    (hrun : server.run ⟨.loop, .start ls fun _ => none⟩ xs = some s)
    (hok : server.Along Unbroken ⟨.loop, .start ls fun _ => none⟩ xs) :
    s.phase ≠ .halted .killed ∧
      (server.Along Steady ⟨.loop, .start ls fun _ => none⟩ xs → s.phase = .loop ∨ s.phase = .halted .blocked) ∧
      ∃ t, server.run ⟨.loop, .start ls fun _ => none⟩ (politely a ⟨.loop, .start ls fun _ => none⟩ xs) = some t ∧
        t.phase = s.phase ∧ Agree a s.server t.server := by
  have hinit : ∀ ok, server.Reach ok ⟨.loop, .start ls fun _ => none⟩ := fun _ => .init ⟨ls, rfl⟩
  have hkilled : s.phase ≠ .halted .killed := not_killed ((hinit Unbroken).run_along hrun hok)
  refine ⟨hkilled, fun hsteady => ?_, run_polite (hinit Unbroken) hrun hok rfl (.refl a _)⟩
  rcases keeps_running ((hinit Steady).run_along hrun hsteady) with ⟨hloop, -⟩ | ⟨e, he⟩
  · exact .inl hloop
  · cases e with
    | blocked => exact .inr he
    | killed => exact absurd he hkilled

/-- A message is queued for a client that resets its connection when `poll` has returned: the `send` fails with `e`. -/
def resetRun (e : Errno) : List Input :=
  [.ready [] [pollIn] [.accepted 5, .accepted 6, .refused .EAGAIN],
   .ready [5, 6] [0, pollIn, 0] [.recv (.bytes [104, 105]), .recv (.error .EAGAIN)],
   .ready [5, 6] [0, 0, pollOut] [.send (.error e), .recv (.error (.other 104))]]

theorem one_peer_reset : ∃ s t, server.run ⟨.loop, .start [3] fun _ => none⟩ (resetRun (.other 104)) = some s ∧
    server.run ⟨.loop, .start [3] fun _ => none⟩
      (politely 1 ⟨.loop, .start [3] fun _ => none⟩ (resetRun (.other 104))) = some t ∧
    s.phase = .loop ∧ t.phase = .loop ∧ s.server.clients.keys = [5] ∧ Agree 1 s.server t.server := by
  have hrun : (server.run ⟨.loop, .start [3] fun _ => none⟩ (resetRun (.other 104))).map
      (fun s => (s.phase, s.server.clients.keys)) = some (.loop, [5]) := by decide +kernel
  obtain ⟨s, hs, hq⟩ := Option.map_eq_some_iff.1 hrun
  obtain ⟨hphase, hkeys⟩ := Prod.mk.inj hq
  obtain ⟨-, -, t, ht, htphase, hagree⟩ := one_peer 1 hs (by decide +kernel)
  exact ⟨s, t, hs, ht, hphase, htphase.trans hphase, hkeys, hagree⟩

/-- `send` is called without `MSG_NOSIGNAL`. -/
theorem one_peer_killed : (server.run ⟨.loop, .start [3] fun _ => none⟩ (resetRun .EPIPE)).map (·.phase) =
    some (.halted .killed) := by
  decide +kernel

end TcpChat.Poll
