import TcpChat.Epoll.Effects

/-!
# Clients and their entries in the interest list

* `Wired` — the invariant that ties the clients to their descriptors, in the middle of a batch, too;
* `Rearmed` — the entry of a client is armed and its mask is the one for the client's queue;
* `Spares` — what a handler does to the other clients: they stay, and what is armed stays armed.  Every operation of
  a handler spares the others, and a broadcast arms them all.
-/

namespace TcpChat.Epoll

open TcpChat.Lib TcpChat.EventLoop

variable {s s' : Server} {fd g : Fd} {l l' : List Answer}

/-! ## The invariant -/

/-- The client's entry is armed, with the mask for its queue. -/
def Rearmed (s : Server) (fd : Fd) : Prop :=
  ∃ c, s.clients.lookup fd = some c ∧ s.interest fd = some ⟨clientMask c, true⟩

/-- Clients are open descriptors with an entry in the interest list, which lists nothing but these and the
listeners. -/
structure Wired (s : Server) : Prop where
  numbered : Numbered s
  socket : ∀ fd c, s.clients.lookup fd = some c → c.socket = some fd
  client : ∀ fd, fd ∈ s.clients → s.IsOpen fd ∧ fd ∉ s.listenSockets ∧ (s.interest fd).isSome
  listener : ∀ fd, fd ∈ s.listenSockets → s.IsOpen fd
  registered : ∀ fd, (s.interest fd).isSome → fd ∈ s.listenSockets ∨ fd ∈ s.clients

/-- What a handler of `fd` does to the other clients: they stay, and armed entries stay armed. -/
structure Spares (fd : Fd) (s s' : Server) : Prop where
  wired : Wired s → Wired s'
  live : ∀ g, g ≠ fd → (g ∈ s'.clients ↔ g ∈ s.clients)
  rearmed : ∀ g, g ≠ fd → Rearmed s g → Rearmed s' g
  running : s'.running = s.running
  listenSockets : s'.listenSockets = s.listenSockets

theorem Spares.refl (fd : Fd) (s : Server) : Spares fd s s := ⟨id, fun _ _ => Iff.rfl, fun _ _ => id, rfl, rfl⟩

theorem Spares.trans {t : Server} (h : Spares fd s s') (h' : Spares fd s' t) : Spares fd s t where
  wired := h'.wired ∘ h.wired
  live g hg := (h'.live g hg).trans (h.live g hg)
  rearmed g hg := h'.rearmed g hg ∘ h.rearmed g hg
  running := h'.running.trans h.running
  listenSockets := h'.listenSockets.trans h.listenSockets

theorem mem_clients : fd ∈ s.clients ↔ ∃ c, s.clients.lookup fd = some c := by
  rw [← AList.lookup_isSome, Option.isSome_iff_exists]

/-- A change that maps sessions to sessions with the same number and socket, and entries to entries. -/
theorem Wired.of_map (h : Wired s) (hs : SameSockets s s') (f : Fd → ClientSession → ClientSession)
    (hf : ∀ fd c, (f fd c).id = c.id ∧ (f fd c).socket = c.socket)
    (hc : ∀ g, s'.clients.lookup g = (s.clients.lookup g).map (f g))
    (hi : ∀ g, (s'.interest g).isSome = (s.interest g).isSome) : Wired s' := by
  have hmem : ∀ g, g ∈ s'.clients ↔ g ∈ s.clients := fun g => by
    rw [← AList.lookup_isSome, ← AList.lookup_isSome, hc, Option.isSome_map]
  refine ⟨h.numbered.update (fun fd c => (hf fd c).1) hs.count hc, fun fd c hfd => ?_, fun fd hfd => ?_,
    fun fd hfd => ?_, fun fd hfd => ?_⟩
  · rw [hc, Option.map_eq_some_iff] at hfd
    obtain ⟨d, hd, rfl⟩ := hfd
    rw [(hf fd d).2]
    exact h.socket fd d hd
  · obtain ⟨hopen, hl, hr⟩ := h.client fd ((hmem fd).1 hfd)
    rw [Server.IsOpen, hs.closes, hs.listenSockets, hi]
    exact ⟨hopen, hl, hr⟩
  · rw [Server.IsOpen, hs.closes]
    exact h.listener fd (hs.listenSockets ▸ hfd)
  · rw [hs.listenSockets, hmem]
    exact h.registered fd (by rwa [hi] at hfd)

/-! ## Broadcasts -/

variable {msg : List UInt8} {sender : ℕ}

theorem castClient_id (c : ClientSession) : (castClient msg sender c).id = c.id := by
  unfold castClient
  split
  · exact ClientSession.postSend_id
  · rfl

theorem castClient_socket (c : ClientSession) : (castClient msg sender c).socket = c.socket := by
  unfold castClient ClientSession.postSend
  repeat' split
  all_goals rfl

theorem isSome_castInterest (r : Option Registration) (c : Option ClientSession) :
    (castInterest msg sender r c).isSome = r.isSome := by
  unfold castInterest
  repeat' split
  all_goals simp

/-- A broadcast arms the entry of every client but the sender. -/
theorem broadcastMsg_rearmed {c : ClientSession} (hw : Wired s) (hc : s.clients.lookup g = some c)
    (hs : c.id ≠ sender) : Rearmed (broadcastMsg msg sender s) g := by
  obtain ⟨hclient, hinterest⟩ := (broadcastMsg_spec s msg sender).2 g
  obtain ⟨r, hr⟩ := Option.isSome_iff_exists.1 (hw.client g (mem_clients.2 ⟨c, hc⟩)).2.2
  refine ⟨c.postSend msg, ?_, ?_⟩
  · rw [hclient, hc, Option.map_some, castClient, if_pos hs]
  · rw [hinterest, hc, hr, castInterest, if_pos hs, Option.map_some]

theorem broadcastMsg_spares {c : ClientSession} (hw : Wired s) (hc : s.clients.lookup fd = some c)
    (msg : List UInt8) :
    Spares fd s (broadcastMsg msg c.id s) ∧ (broadcastMsg msg c.id s).clients.lookup fd = some c ∧
      (broadcastMsg msg c.id s).interest fd = s.interest fd := by
  obtain ⟨hsame, hspec⟩ := broadcastMsg_spec s msg c.id
  refine ⟨⟨fun hw => hw.of_map hsame (fun _ => castClient msg c.id) (fun _ d => ⟨castClient_id d, castClient_socket d⟩)
    (fun g => (hspec g).1) fun g => by rw [(hspec g).2, isSome_castInterest], fun g _ => ?_, fun g hg hr => ?_,
    hsame.running, hsame.listenSockets⟩, ?_, ?_⟩
  · rw [← AList.lookup_isSome, ← AList.lookup_isSome, (hspec g).1, Option.isSome_map]
  · obtain ⟨d, hd, -⟩ := hr
    exact broadcastMsg_rearmed hw hd fun he => hg (hw.numbered.inj g fd d c hd hc he)
  · rw [(hspec fd).1, hc, Option.map_some, castClient, if_neg (not_not.2 rfl)]
  · rw [(hspec fd).2, hc, castInterest, if_neg (not_not.2 rfl)]

/-- The broadcasts of a `Read`. -/
theorem foldl_broadcastMsg {c : ClientSession} (hw : Wired s) (hc : s.clients.lookup fd = some c)
    (chunks : List (List UInt8)) :
    let t := chunks.foldl (fun s x => broadcastMsg x c.id s) s
    Spares fd s t ∧ t.clients.lookup fd = some c ∧ t.interest fd = s.interest fd ∧
      (chunks ≠ [] → ∀ g, g ≠ fd → g ∈ s.clients → Rearmed t g) := by
  induction chunks generalizing s with
  | nil => exact ⟨.refl fd s, hc, rfl, fun h => absurd rfl h⟩
  | cons x chunks ih =>
    obtain ⟨hsp, hown, hint⟩ := broadcastMsg_spares hw hc x
    obtain ⟨hsp', hown', hint', -⟩ := ih (hsp.wired hw) hown
    refine ⟨hsp.trans hsp', hown', hint'.trans hint, fun _ g hg hlive => ?_⟩
    obtain ⟨d, hd⟩ := mem_clients.1 hlive
    exact hsp'.rearmed g hg (broadcastMsg_rearmed hw hd fun he => hg (hw.numbered.inj g fd d c hd hc he))

/-! ## The other operations -/

theorem foldl_accepted_spares {c : ClientSession} (hc : s.clients.lookup fd = some c) (counts : List ℕ) :
    let t := counts.foldl (fun s n => s.modify fd (·.accepted n)) s
    Spares fd s t ∧ fd ∈ t.clients := by
  obtain ⟨hsame, hint, hspec⟩ := foldl_accepted s fd counts
  have hfold : ∀ (counts : List ℕ) (d : ClientSession), (counts.foldl (·.accepted ·) d).id = d.id ∧
      (counts.foldl (·.accepted ·) d).socket = d.socket := by
    intro counts
    induction counts with
    | nil => exact fun d => ⟨rfl, rfl⟩
    | cons n counts ih =>
      intro d
      rw [List.foldl_cons, (ih _).1, (ih _).2]
      exact ⟨ClientSession.accepted_id, ClientSession.accepted_socket⟩
  refine ⟨⟨fun hw => ?_, fun g _ => ?_, fun g hg hr => ?_, hsame.running, hsame.listenSockets⟩, ?_⟩
  · refine hw.of_map hsame (fun g d => if g = fd then counts.foldl (·.accepted ·) d else d) (fun g d => ?_) hspec
      fun g => by rw [hint]
    split
    · exact hfold counts d
    · exact ⟨rfl, rfl⟩
  · rw [← AList.lookup_isSome, ← AList.lookup_isSome, hspec, Option.isSome_map]
  · obtain ⟨d, hd, hr⟩ := hr
    exact ⟨d, by rw [hspec, hd, Option.map_some, if_neg hg], by rw [hint, hr]⟩
  · rw [mem_clients, hspec, hc]
    exact ⟨_, rfl⟩

/-- `ModClientWritable` arms the entry of its client. -/
theorem modClientWritable_spares (hw : Wired s) (hfd : fd ∈ s.clients) :
    Spares fd s (modClientWritable fd s) ∧ Rearmed (modClientWritable fd s) fd := by
  obtain ⟨c, hc⟩ := mem_clients.1 hfd
  obtain ⟨r, hr⟩ := Option.isSome_iff_exists.1 (hw.client fd hfd).2.2
  have hsame := sameSockets_modClientWritable s fd
  have hclients : (modClientWritable fd s).clients = s.clients := clients_modClientWritable
  refine ⟨⟨fun hw => ?_, fun g _ => by rw [hclients], fun g hg hr => ?_, hsame.running, hsame.listenSockets⟩, c, ?_, ?_⟩
  · refine hw.of_map hsame (fun _ d => d) (fun _ _ => ⟨rfl, rfl⟩) (fun g => by rw [hclients, Option.map_id']) fun g => ?_
    rw [interest_modClientWritable hc]
    split
    · exact Option.isSome_map
    · rfl
  · obtain ⟨d, hd, hr⟩ := hr
    exact ⟨d, by rw [hclients, hd], by rw [interest_modClientWritable hc, if_neg hg, hr]⟩
  · rw [hclients, hc]
  · rw [interest_modClientWritable hc, if_pos rfl, hr, Option.map_some]

theorem Closed.spares (h : Closed fd s s') (hl : fd ∉ s.listenSockets) : Spares fd s s' ∧ fd ∉ s'.clients := by
  have hold : ∀ g c, s'.clients.lookup g = some c → g ≠ fd ∧ s.clients.lookup g = some c := by
    intro g c hc
    rw [h.clients] at hc
    split at hc
    next => cases hc
    next hg => exact ⟨hg, hc⟩
  have hmem : ∀ g, g ∈ s'.clients ↔ g ≠ fd ∧ g ∈ s.clients := by
    intro g
    rw [← AList.lookup_isSome, ← AList.lookup_isSome, h.clients]
    by_cases hg : g = fd <;> simp [hg]
  refine ⟨⟨fun hw => ⟨?_, fun g c hc => ?_, fun g hg => ?_, fun g hg => ?_, fun g hg => ?_⟩, fun g hg => ?_,
    fun g hg hr => ?_, h.running, h.listenSockets⟩, fun hfd => ((hmem fd).1 hfd).1 rfl⟩
  · refine ⟨fun g c hc => ?_, fun g g' c c' hc hc' => ?_⟩
    · rw [h.count]
      exact hw.numbered.lt g c (hold g c hc).2
    · exact hw.numbered.inj g g' c c' (hold g c hc).2 (hold g' c' hc').2
  · exact hw.socket g c (hold g c hc).2
  · obtain ⟨hne, hlive⟩ := (hmem g).1 hg
    rw [Server.IsOpen, h.closes g hne, h.listenSockets, h.interest, if_neg hne]
    exact hw.client g hlive
  · have hne : g ≠ fd := by
      rintro rfl
      exact hl (h.listenSockets ▸ hg)
    rw [Server.IsOpen, h.closes g hne]
    exact hw.listener g (h.listenSockets ▸ hg)
  · rw [h.interest] at hg
    split at hg
    next => cases hg
    next hne =>
      rw [h.listenSockets, hmem]
      exact (hw.registered g hg).imp_right fun hlive => ⟨hne, hlive⟩
  · rw [hmem]
    exact and_iff_right hg
  · obtain ⟨c, hc, hr⟩ := hr
    exact ⟨c, by rw [h.clients, if_neg hg, hc], by rw [h.interest, if_neg hg, hr]⟩

end TcpChat.Epoll
