import TcpChat.Epoll.Arming
import TcpChat.Epoll.Inbox

/-!
# What is broadcast of what clients send

A session is removed by `CloseClient`, which receives the unread bytes and drops them.  After a `recv` that has
returned `0` there are none.  But `HandleClients` also closes a session when the event reports `EPOLLRDHUP`, before it
looks at `EPOLLIN`.

* `Delivered` — what has arrived from a client that is gone has been broadcast, unless its connection was lost;
* `Emptied` — a client whose event reports `EPOLLRDHUP` has no unread bytes, and at `Stop` no client has;
* `handleClients_cast` — what one event broadcasts, and why its session is closed;
* `arrived_cast` — in such runs everything that has arrived is broadcast;
* `arrived_dropped` — otherwise it is dropped.
-/

namespace TcpChat.Epoll

open TcpChat.Lib TcpChat.EventLoop

/-! ## What has been broadcast -/

/-- The bytes that have been broadcast for a session. -/
def castBytes (log : List Broadcast) (id : ℕ) : List UInt8 := (log.filter (·.sender = id)).flatMap (·.msg)

/-- The session is in `m_clients`. -/
def Live (s : Server) (id : ℕ) : Prop := ∃ fd c, s.clients.lookup fd = some c ∧ c.id = id

/-- The broadcasts of a `Read` of the session `this`. -/
def casts (this : ℕ) (chunks : List (List UInt8)) : List Broadcast := chunks.map (⟨this, ·⟩)

theorem castBytes_append {log : List Broadcast} {this id : ℕ} {chunks : List (List UInt8)} :
    castBytes (log ++ casts this chunks) id =
      if id = this then castBytes log id ++ chunks.flatten else castBytes log id := by
  have hcasts : ∀ chunks, castBytes (casts this chunks) id = if id = this then chunks.flatten else [] := by
    intro chunks
    induction chunks with
    | nil => simp [castBytes, casts]
    | cons x chunks ih =>
      simp only [castBytes, casts, List.map_cons, List.filter_cons] at ih ⊢
      by_cases hid : id = this
      · subst hid
        simpa using ih
      · simp [hid, Ne.symm hid]
  have happend : castBytes (log ++ casts this chunks) id = castBytes log id ++ castBytes (casts this chunks) id := by
    simp [castBytes]
  rw [happend, hcasts]
  split <;> simp

/-- What has arrived from a client that is gone has been broadcast, unless its connection was lost. -/
def Delivered (s : Server) (inbox : ℕ → Inbox) : Prop :=
  ∀ id, ¬ Live s id → (inbox id).broken = false → castBytes s.log id = (inbox id).arrived

namespace Net

def Delivers (n : Net) : Prop := Delivered n.state.server n.inbox

/-- An event that reports `EPOLLRDHUP`, but no error, is handled only if the client has no unread bytes; `Stop` is
called only if no client has any. -/
def Emptied (n : Net) : Input → Prop
  | .events batch => ∀ r ∈ batch, r.events &&& (epollErr ||| epollHup) = 0 → r.events &&& epollRdHup ≠ 0 →
      ∀ c ∈ n.state.server.clients.lookup r.fd, (n.inbox c.id).unread = []
  | .stop _ => ∀ fd ∈ n.state.server.clients.keys, ∀ c ∈ n.state.server.clients.lookup fd, (n.inbox c.id).unread = []
  | _ => True

instance (n : Net) : DecidablePred n.Emptied
  | .events _ | .stop _ => inferInstanceAs (Decidable (∀ _ ∈ _, _))
  | .arrive _ _ | .finish _ | .interrupted | .failed => isTrue trivial

end Net

/-! ## One event -/

variable {s s' : Server} {fd g : Fd} {l l' : List Answer} {e : Event}

/-- The same sessions are in `m_clients`. -/
structure SameIds (s s' : Server) : Prop where
  count : s'.count = s.count
  ids : ∀ g, (s'.clients.lookup g).map (·.id) = (s.clients.lookup g).map (·.id)

/-- The same, but the session of `fd` may be gone. -/
structure Aside (fd : Fd) (s s' : Server) : Prop where
  count : s'.count = s.count
  others : ∀ g, g ≠ fd → (s'.clients.lookup g).map (·.id) = (s.clients.lookup g).map (·.id)
  own : (s'.clients.lookup fd).map (·.id) = (s.clients.lookup fd).map (·.id) ∨ s'.clients.lookup fd = none

theorem SameIds.trans {t : Server} (h : SameIds s s') (h' : SameIds s' t) : SameIds s t :=
  ⟨h'.count.trans h.count, fun g => (h'.ids g).trans (h.ids g)⟩

theorem SameIds.aside (h : SameIds s s') : Aside fd s s' := ⟨h.count, fun g _ => h.ids g, .inl (h.ids fd)⟩

theorem Aside.trans {t : Server} (h : Aside fd s s') (h' : Aside fd s' t) : Aside fd s t := by
  refine ⟨h'.count.trans h.count, fun g hg => (h'.others g hg).trans (h.others g hg), ?_⟩
  rcases h'.own with ho | ho
  · rcases h.own with ho' | ho'
    · exact .inl (ho.trans ho')
    · rw [ho', Option.map_none, Option.map_eq_none_iff] at ho
      exact .inr ho
  · exact .inr ho

/-- A change of the sessions that keeps their numbers. -/
theorem SameIds.of_map (f : Fd → ClientSession → ClientSession) (hf : ∀ g c, (f g c).id = c.id)
    (hcount : s'.count = s.count) (hs : ∀ g, s'.clients.lookup g = (s.clients.lookup g).map (f g)) :
    SameIds s s' := by
  refine ⟨hcount, fun g => ?_⟩
  rw [hs, Option.map_map]
  exact congrArg (fun f => Option.map f _) (funext (hf g))

theorem sameIds_modify (s : Server) (fd : Fd) {f : ClientSession → ClientSession} (hf : ∀ c, (f c).id = c.id) :
    SameIds s (s.modify fd f) :=
  .of_map (fun g c => if g = fd then f c else c) (fun g c => by split <;> simp [hf]) rfl fun g => Table.lookup_modify f

/-- The broadcasts of a `Read`. -/
theorem foldl_cast (s : Server) (this : ℕ) (chunks : List (List UInt8)) :
    let t := chunks.foldl (fun s x => broadcastMsg x this s) s
    SameIds s t ∧ t.log = s.log ++ casts this chunks := by
  induction chunks generalizing s with
  | nil => exact ⟨⟨rfl, fun _ => rfl⟩, by simp [casts]⟩
  | cons x chunks ih =>
    obtain ⟨hsame, hspec⟩ := broadcastMsg_spec s x this
    have hone : SameIds s (broadcastMsg x this s) :=
      .of_map (fun _ => castClient x this) (fun _ c => castClient_id c) hsame.count fun g => (hspec g).1
    obtain ⟨hids, hlog⟩ := ih (broadcastMsg x this s)
    refine ⟨hone.trans hids, hlog.trans ?_⟩
    simp [broadcastMsg, casts]

/-- What `Write` sends. -/
theorem foldl_accepted_ids (s : Server) (fd : Fd) (counts : List ℕ) :
    let t := counts.foldl (fun s n => s.modify fd (·.accepted n)) s
    SameIds s t ∧ t.log = s.log := by
  induction counts generalizing s with
  | nil => exact ⟨⟨rfl, fun _ => rfl⟩, rfl⟩
  | cons n counts ih =>
    obtain ⟨hids, hlog⟩ := ih (s.modify fd (·.accepted n))
    exact ⟨(sameIds_modify s fd fun _ => ClientSession.accepted_id).trans hids, hlog⟩

theorem modClientWritable_ids (s : Server) (fd : Fd) :
    SameIds s (modClientWritable fd s) ∧ (modClientWritable fd s).log = s.log := by
  refine ⟨⟨(sameSockets_modClientWritable s fd).count, fun g => by rw [clients_modClientWritable]⟩, ?_⟩
  unfold modClientWritable epollCtlMod
  repeat' split
  all_goals rfl

/-- `CloseClient` broadcasts nothing, whether it returns or waits. -/
theorem closeClient_aside (s : Server) (fd : Fd) (l : List Answer) :
    Aside fd s (closeClient fd s l).state ∧ (closeClient fd s l).state.log = s.log := by
  have herase : ∀ t : Server, Aside fd t (t.erase fd) := fun t =>
    ⟨rfl, fun g hg => by rw [Server.erase, AList.lookup_erase_ne hg], .inr (AList.lookup_erase ..)⟩
  have hclose : ∀ t sock, SameIds t (Server.close t sock) := fun t sock => ⟨rfl, fun _ => rfl⟩
  have hdel : ∀ t, SameIds t ((epollCtlDel t fd).close fd) := fun t => ⟨rfl, fun _ => rfl⟩
  have hkeeps : Prog.Keeps (fun t => Aside fd s t ∧ t.log = s.log) (closeClient fd) := by
    refine Prog.keeps_get.bind fun t => (Prog.keeps_ite ?_ (Prog.keeps_pure ())).bind fun _ => ?_
    · refine (ClientSession.keeps_stop (fun t sock ht => ⟨ht.1.trans (hclose t sock).aside, ht.2⟩) fun t ht => ?_).bind
        fun _ => ?_
      · exact ⟨ht.1.trans (sameIds_modify (f := fun c => { c with socket := none }) t fd fun _ => rfl).aside, ht.2⟩
      · exact Prog.keeps_modify fun t ht => ⟨ht.1.trans (herase t), ht.2⟩
    · exact Prog.keeps_modify fun t ht => ⟨ht.1.trans (hdel t).aside, ht.2⟩
  exact hkeeps s l ⟨⟨rfl, fun _ _ => rfl, .inl rfl⟩, rfl⟩

theorem received_chunks (chunks : List (List UInt8)) (l : List Answer) :
    received (chunks.map (fun x => .recv (.bytes x)) ++ l) = chunks.flatten ++ received l := by
  induction chunks with
  | nil => rfl
  | cons x chunks ih => simp [received, ih]

theorem received_sends (sends : List SendResult) : received (sends.map .send) = [] := by
  induction sends with
  | nil => rfl
  | cons r sends ih => exact ih

/-- The first part of `HandleClients`. -/
def readPart (events : UInt32) (this : ℕ) : Prog Server Answer Bool :=
  if events &&& epollIn ≠ 0 then read this else pure true

theorem readPart_halt {events : UInt32} {this : ℕ} {h : Halt} (hrun : readPart events this s l = .halt h s') :
    ∃ chunks, SameIds s s' ∧ s'.log = s.log ++ casts this chunks := by
  unfold readPart at hrun
  split at hrun
  · obtain ⟨chunks, rfl⟩ := ClientSession.read_halt hrun
    exact ⟨chunks, foldl_cast s this chunks⟩
  · cases hrun

theorem readPart_ret {events : UInt32} {this : ℕ} {b : Bool} (hrun : readPart events this s l = .ret b s' l') :
    ∃ chunks, (SameIds s s' ∧ s'.log = s.log ++ casts this chunks) ∧
      (b = true → received l = chunks.flatten ++ received l') ∧ (∀ a ∈ l', a ∈ l) ∧
      (b = false → (∃ l', l = chunks.map (fun x => .recv (.bytes x)) ++ .recv .closed :: l') ∨ ∃ a ∈ l, a.Lost) := by
  unfold readPart at hrun
  split at hrun
  · obtain ⟨chunks, rfl, -, r, rfl, hr⟩ := ClientSession.read_ret hrun
    refine ⟨chunks, foldl_cast s this chunks, fun hb => ?_, fun a ha => by simp [ha], fun hb => ?_⟩
    · rcases hr with ⟨rfl, rfl⟩ | ⟨e, rfl, rfl⟩
      · cases hb
      · exact received_chunks chunks _
    · rcases hr with ⟨rfl, -⟩ | ⟨e, rfl, he⟩
      · exact .inl ⟨l', rfl⟩
      · exact .inr ⟨.recv (.error e), by simp, he.symm.trans hb⟩
  · obtain ⟨rfl, rfl, rfl⟩ := Prog.pure_ret.1 hrun
    exact ⟨[], ⟨⟨rfl, fun _ => rfl⟩, by simp [casts]⟩, fun _ => rfl, fun _ => id, nofun⟩

/-- Why the session of an event is closed, after a `Read` that has broadcast `chunks`. -/
def Closes (e : Event) (chunks : List (List UInt8)) : Prop :=
  (e.HangsUp ∧ chunks = []) ∨ (∃ l, e.answers = chunks.map (fun x => .recv (.bytes x)) ++ .recv .closed :: l) ∨
    ∃ a ∈ e.answers, a.Lost

/-- The session is closed, or it stays and all the received bytes are broadcast. -/
def Settled (e : Event) (chunks : List (List UInt8)) (o : Outcome Server Answer Unit) : Prop :=
  Closes e chunks ∧ (∀ u s' l', o = .ret u s' l' → s'.clients.lookup e.fd = none) ∨
    (o.state.clients.lookup e.fd).isSome ∧ ∀ u s', o = .ret u s' [] → received e.answers = chunks.flatten

/-- What the handler of an event of the session `this` broadcasts. -/
def Casts (s : Server) (e : Event) (this : ℕ) (o : Outcome Server Answer Unit) : Prop :=
  ∃ chunks, Aside e.fd s o.state ∧ o.state.log = s.log ++ casts this chunks ∧ Settled e chunks o

theorem SameIds.isSome (h : SameIds s s') (hs : (s.clients.lookup g).isSome) : (s'.clients.lookup g).isSome := by
  rw [← Option.isSome_map (f := (·.id)), h.ids, Option.isSome_map]
  exact hs

theorem closeClient_gone {u : Unit} (h : closeClient fd s l = .ret u s' l') : s'.clients.lookup fd = none := by
  obtain ⟨t, t', k, hget, h⟩ := Prog.bind_ret.1 h
  obtain ⟨rfl, rfl, rfl⟩ := Prog.get_ret.1 hget
  obtain ⟨u', t, k, hstop, h⟩ := Prog.bind_ret.1 h
  obtain ⟨rfl, -⟩ := Prog.modify_ret.1 h
  split at hstop
  · obtain ⟨u'', t', k', -, herase⟩ := Prog.bind_ret.1 hstop
    obtain ⟨rfl, -⟩ := Prog.modify_ret.1 herase
    exact AList.lookup_erase ..
  · next hfd =>
    obtain ⟨-, rfl, -⟩ := Prog.pure_ret.1 hstop
    exact AList.lookup_eq_none.2 hfd

theorem casts_closeClient {t : Server} {this : ℕ} {chunks : List (List UInt8)} (hids : SameIds s t)
    (hlog : t.log = s.log ++ casts this chunks) (hc : Closes e chunks) : Casts s e this (closeClient e.fd t l) := by
  obtain ⟨haside, hlog'⟩ := closeClient_aside t e.fd l
  exact ⟨chunks, hids.aside.trans haside, hlog'.trans hlog, .inl ⟨hc, fun _ _ _ => closeClient_gone⟩⟩

/-- **What one event broadcasts.** -/
theorem handleClients_cast {c : ClientSession} (hc : s.clients.lookup e.fd = some c) :
    Casts s e c.id (handleClients e.fd e.events s e.answers) := by
  have hsome : (s.clients.lookup e.fd).isSome := hc ▸ rfl
  by_cases hup : e.events &&& (epollErr ||| epollHup ||| epollRdHup) ≠ 0
  · rw [handleClients, if_pos hup]
    have hnone : s.log = s.log ++ casts c.id [] := by simp [casts]
    exact casts_closeClient ⟨rfl, fun _ => rfl⟩ hnone (.inl ⟨hup, rfl⟩)
  rw [handleClients, if_neg hup]
  refine Prog.bind_rule (Q := Casts s e c.id) (fun h t hget => by cases hget) fun t s₁ k hget => ?_
  obtain ⟨rfl, rfl, rfl⟩ := Prog.get_ret.1 hget
  simp only [hc]
  refine Prog.bind_rule (Q := Casts s e c.id) (m := readPart e.events c.id) (fun h t hread => ?_)
    fun readable t k hread => ?_
  · -- `Read` waits
    obtain ⟨chunks, hids, hlog⟩ := readPart_halt hread
    exact ⟨chunks, hids.aside, hlog, .inr ⟨hids.isSome hsome, fun _ _ h' => by cases h'⟩⟩
  obtain ⟨chunks, ⟨hids, hlog⟩, hrec, hmem, hfail⟩ := readPart_ret hread
  cases readable with
  | false => exact casts_closeClient hids hlog (.inr (hfail rfl))
  | true =>
    rw [if_pos rfl]
    by_cases hout : e.events &&& epollOut ≠ 0
    · rw [if_pos hout]
      refine Prog.bind_rule (Q := Casts s e c.id) (fun h u hwrite => ?_) fun writable u k' hwrite => ?_
      · -- `Write` waits
        obtain ⟨counts, rfl⟩ := ClientSession.write_halt hwrite
        obtain ⟨hids', hlog'⟩ := foldl_accepted_ids t e.fd counts
        exact ⟨chunks, (hids.trans hids').aside, hlog'.trans hlog,
          .inr ⟨(hids.trans hids').isSome hsome, fun _ _ h' => by cases h'⟩⟩
      obtain ⟨counts, rfl⟩ := ClientSession.write_ret hwrite
      obtain ⟨hids', hlog'⟩ := foldl_accepted_ids t e.fd counts
      obtain ⟨sends, rfl, hlost⟩ := ClientSession.write_answers hwrite
      cases writable with
      | false =>
        obtain ⟨r, hr, hlost⟩ := hlost rfl
        exact casts_closeClient (hids.trans hids') (hlog'.trans hlog)
          (.inr (.inr ⟨.send r, hmem _ (List.mem_append_left _ (List.mem_map_of_mem hr)), hlost⟩))
      | true =>
        rw [if_pos rfl]
        obtain ⟨hids'', hlog''⟩ := modClientWritable_ids (counts.foldl (fun s n => s.modify e.fd (·.accepted n)) t) e.fd
        refine ⟨chunks, ((hids.trans hids').trans hids'').aside, hlog''.trans (hlog'.trans hlog),
          .inr ⟨((hids.trans hids').trans hids'').isSome hsome, fun v s' hret => ?_⟩⟩
        obtain ⟨-, rfl⟩ := Prog.modify_ret.1 hret
        rw [hrec rfl, List.append_nil, received_sends, List.append_nil]
    · rw [if_neg hout]
      refine ⟨chunks, hids.aside, hlog, .inr ⟨hids.isSome hsome, fun v s' hret => ?_⟩⟩
      obtain ⟨-, -, rfl⟩ := Prog.pure_ret.1 hret
      rw [hrec rfl, received, List.append_nil]

/-! ## Listeners -/

/-- Sessions are added, with new numbers, and nothing is broadcast. -/
structure Admits (s s' : Server) : Prop where
  log : s'.log = s.log
  count : s.count ≤ s'.count
  old : ∀ g c, s.clients.lookup g = some c → s'.clients.lookup g = some c
  new : ∀ g c, s'.clients.lookup g = some c → s.clients.lookup g = some c ∨ s.count ≤ c.id

theorem Admits.refl (s : Server) : Admits s s := ⟨rfl, le_rfl, fun _ _ => id, fun _ _ => .inl⟩

theorem Admits.trans {t : Server} (h : Admits s s') (h' : Admits s' t) : Admits s t := by
  refine ⟨h'.log.trans h.log, Nat.le_trans h.count h'.count, fun g c hc => h'.old g c (h.old g c hc), fun g c hc => ?_⟩
  rcases h'.new g c hc with hc | hc
  · exact h.new g c hc
  · exact .inr (Nat.le_trans h.count hc)

theorem addClientToEpoll_admits (s : Server) (cs : Fd) : Admits s (addClientToEpoll cs (s.emplace cs)) := by
  have hadd : ∀ t : Server, (addClientToEpoll cs t).clients = t.clients ∧ (addClientToEpoll cs t).log = t.log ∧
      (addClientToEpoll cs t).count = t.count := by
    intro t
    unfold addClientToEpoll epollCtlAdd
    repeat' split
    all_goals exact ⟨rfl, rfl, rfl⟩
  obtain ⟨hclients, hlog, hcount⟩ := hadd (s.emplace cs)
  refine ⟨hlog, hcount ▸ Nat.le_succ _, fun g c hc => ?_, fun g c hc => ?_⟩
  · rw [hclients, Server.emplace, Table.emplace]
    split
    next => exact hc
    next hcs =>
      have hne : g ≠ cs := fun he => hcs (he ▸ mem_clients.2 ⟨c, hc⟩)
      rw [AList.lookup_insert_ne hne, hc]
  · rw [hclients] at hc
    rcases Table.lookup_emplace hc with hold | ⟨-, rfl⟩
    · exact .inl hold
    · exact .inr le_rfl

theorem acceptAll_admits (s : Server) (l : List Answer) : Admits s (acceptAll s l).state :=
  keeps_acceptAll (I := Admits s) (fun t cs _ h => h.trans (addClientToEpoll_admits t cs)) s l (.refl s)

theorem handleListeners_admits (s : Server) (events : UInt32) (l : List Answer) :
    Admits s (handleListeners events s l).state := by
  unfold handleListeners
  repeat' split
  · exact ⟨rfl, le_rfl, fun _ _ => id, fun _ _ => .inl⟩
  · exact acceptAll_admits s l
  · exact .refl s

/-! ## The invariant -/

variable {inbox inbox' : ℕ → Inbox} {r : Report} {o : Outcome Server Answer Unit}

/-- Between two events. -/
structure Heard (s : Server) (inbox : ℕ → Inbox) : Prop where
  wired : Wired s
  live : ∀ fd c, s.clients.lookup fd = some c → (inbox c.id).Told (castBytes s.log c.id)
  gone : Delivered s inbox
  fresh : ∀ id, s.count ≤ id → inbox id = .fresh ∧ castBytes s.log id = []

/-- The event is one of a listener, or of a session that has no unread bytes if it is closed because of it. -/
def Ready (s : Server) (inbox : ℕ → Inbox) (r : Report) : Prop :=
  r.fd ∈ s.listenSockets ∨ ∃ c, s.clients.lookup r.fd = some c ∧
    (r.events &&& (epollErr ||| epollHup) = 0 → r.events &&& epollRdHup ≠ 0 → (inbox c.id).Over)

theorem listener_heard (h : Heard s inbox) (ha : Admits s s') (hw : Wired s') : Heard s' inbox := by
  refine ⟨hw, fun fd c hc => ?_, fun id hid => ?_, fun id hid => ?_⟩
  · rw [ha.log]
    rcases ha.new fd c hc with hc | hc
    · exact h.live fd c hc
    · obtain ⟨hfresh, hcast⟩ := h.fresh c.id hc
      rw [hfresh, hcast]
      rfl
  · rw [ha.log]
    exact h.gone id fun ⟨fd, c, hc, he⟩ => hid ⟨fd, c, ha.old fd c hc, he⟩
  · rw [ha.log]
    exact h.fresh id (Nat.le_trans ha.count hid)

theorem no_hangsUp {events : UInt32} (herr : events &&& (epollErr ||| epollHup) = 0) (hrd : events &&& epollRdHup = 0) :
    events &&& (epollErr ||| epollHup ||| epollRdHup) = 0 := by
  rw [← UInt32.toBitVec_inj] at *
  rw [UInt32.toBitVec_and, UInt32.toBitVec_or, BitVec.and_or_distrib_left, ← UInt32.toBitVec_and, ← UInt32.toBitVec_and,
    herr, hrd]
  rfl

/-- The inbox of a session after its event: when it is closed, all that has arrived is broadcast or the connection is
lost. -/
theorem settled_told {k k' : Inbox} {chunks : List (List UInt8)} {told : List UInt8}
    (ht : k.Told told) (hplays : (k.reported r.events).plays r.moves = some k')
    (hover : r.events &&& (epollErr ||| epollHup) = 0 → r.events &&& epollRdHup ≠ 0 → k.Over)
    (hs : Settled r.event chunks o) :
    (k'.broken = true ∨ told ++ chunks.flatten = k'.arrived) ∧
        (∀ u s' l', o = .ret u s' l' → s'.clients.lookup r.fd = none) ∨
      (o.state.clients.lookup r.fd).isSome ∧ ∀ u s', o = .ret u s' [] → k'.Told (told ++ chunks.flatten) := by
  have ht' : (k.reported r.events).Told told := by
    unfold Inbox.reported
    split
    · exact ht
    · exact ht
  have htold := Inbox.plays_told hplays ht'
  rcases hs with ⟨hcloses, hgone⟩ | ⟨hlive, hret⟩
  · refine .inl ⟨?_, hgone⟩
    rcases hcloses with ⟨hup, rfl⟩ | ⟨l, hl⟩ | hlost
    · by_cases herr : r.events &&& (epollErr ||| epollHup) = 0
      · have hrd : r.events &&& epollRdHup ≠ 0 := fun h0 => hup (no_hangsUp herr h0)
        have hk : (k.reported r.events).Over := by
          rw [Inbox.reported, if_neg (not_not.2 herr)]
          exact hover herr hrd
        obtain ⟨⟨hunread, -⟩, hrec⟩ := Inbox.plays_over hplays hk
        right
        simpa [Inbox.Told, hrec, hunread] using htold
      · have hb : (k.reported r.events).broken = true := by rw [Inbox.reported, if_pos herr]
        exact .inl (Inbox.plays_broken hplays (.inl hb))
    · obtain ⟨⟨hunread, -⟩, hrec⟩ := Inbox.plays_closed hplays hl
      have hl : r.moves.filterMap Move.answer? = chunks.map (fun x => .recv (.bytes x)) ++ .recv .closed :: l := hl
      have hend : received (.recv .closed :: l) = [] := hrec
      rw [hl, received_chunks, hend, List.append_nil] at htold
      right
      simpa [Inbox.Told, hunread] using htold
    · exact .inl (Inbox.plays_broken hplays (.inr hlost))
  · refine .inr ⟨hlive, fun u s' ho => ?_⟩
    have hrec : received (r.moves.filterMap Move.answer?) = chunks.flatten := hret u s' ho
    rwa [hrec] at htold

theorem Aside.lookup {c d : ClientSession} (h : Aside fd s s') (hc : s.clients.lookup fd = some c)
    (hd : s'.clients.lookup g = some d) :
    (g = fd ∧ d.id = c.id) ∨ g ≠ fd ∧ ∃ b, s.clients.lookup g = some b ∧ b.id = d.id := by
  by_cases hg : g = fd
  · subst hg
    rcases h.own with ho | ho
    · rw [hd, hc] at ho
      exact .inl ⟨rfl, Option.some.inj ho⟩
    · rw [hd] at ho
      cases ho
  · have ho := h.others g hg
    rw [hd, Option.map_some, eq_comm, Option.map_eq_some_iff] at ho
    exact .inr ⟨hg, ho⟩

/-- Sessions with other numbers stay. -/
theorem Aside.live {c : ClientSession} {id : ℕ} (h : Aside fd s s') (hc : s.clients.lookup fd = some c) (hid : id ≠ c.id)
    (hlive : Live s id) : Live s' id := by
  obtain ⟨g, b, hb, rfl⟩ := hlive
  have hg : g ≠ fd := by
    rintro rfl
    exact hid (congrArg ClientSession.id (Option.some.inj (hb.symm.trans hc)))
  have ho := h.others g hg
  rw [hb, Option.map_some, Option.map_eq_some_iff] at ho
  obtain ⟨d, hd, hid'⟩ := ho
  exact ⟨g, d, hd, hid'⟩

theorem client_delivered {c : ClientSession} {k' : Inbox} {chunks : List (List UInt8)} (h : Heard s inbox)
    (hc : s.clients.lookup r.fd = some c) (haside : Aside r.fd s o.state)
    (hlog : o.state.log = s.log ++ casts c.id chunks)
    (htold : (k'.broken = true ∨ castBytes s.log c.id ++ chunks.flatten = k'.arrived) ∨
      (o.state.clients.lookup r.fd).isSome) : Delivered o.state (Function.update inbox c.id k') := by
  intro id hid hbroken
  rw [hlog, castBytes_append]
  by_cases he : id = c.id
  · subst he
    rw [Function.update_self] at hbroken
    rw [if_pos rfl, Function.update_self]
    rcases htold with (hb | heq) | hlive
    · rw [hbroken] at hb
      cases hb
    · exact heq
    · obtain ⟨d, hd⟩ := Option.isSome_iff_exists.1 hlive
      rcases haside.lookup hc hd with ⟨-, hdid⟩ | ⟨hne, -⟩
      · exact absurd ⟨r.fd, d, hd, hdid⟩ hid
      · exact absurd rfl hne
  · rw [Function.update_of_ne he] at hbroken ⊢
    rw [if_neg he]
    exact h.gone id (fun hlive => hid (haside.live hc he hlive)) hbroken

theorem client_heard {c : ClientSession} {k' : Inbox} (h : Heard s inbox) (hl : r.fd ∉ s.listenSockets)
    (hc : s.clients.lookup r.fd = some c)
    (hover : r.events &&& (epollErr ||| epollHup) = 0 → r.events &&& epollRdHup ≠ 0 → (inbox c.id).Over)
    (hplays : ((inbox c.id).reported r.events).plays r.moves = some k')
    (ho : handleClients r.fd r.events s r.event.answers = o) :
    Delivered o.state (Function.update inbox c.id k') ∧ ∀ u s', o = .ret u s' [] →
      Heard s' (Function.update inbox c.id k') ∧ s'.listenSockets = s.listenSockets ∧
        ∀ r', r'.fd ≠ r.fd → Ready s inbox r' → Ready s' (Function.update inbox c.id k') r' := by
  have hcast := handleClients_cast (e := r.event) hc
  rw [show handleClients r.event.fd r.event.events s r.event.answers = o from ho] at hcast
  obtain ⟨chunks, haside, hlog, hsettled⟩ := hcast
  have haside : Aside r.fd s o.state := haside
  have htold := settled_told (h.live r.fd c hc) hplays hover hsettled
  have hdelivered := client_delivered h hc haside hlog (htold.imp And.left And.left)
  refine ⟨hdelivered, ?_⟩
  rintro u s' rfl
  obtain ⟨hspares, -⟩ := handleClients_spec h.wired (e := r.event) hl ho
  have hother : ∀ g b, g ≠ r.fd → s.clients.lookup g = some b → b.id ≠ c.id := fun g b hg hb he =>
    hg (h.wired.numbered.inj g r.fd b c hb hc he)
  refine ⟨⟨hspares.wired h.wired, fun g d hd => ?_, hdelivered, fun id hid => ?_⟩, hspares.listenSockets,
    fun r' hr' => ?_⟩
  · rw [show s'.log = s.log ++ casts c.id chunks from hlog, castBytes_append]
    rcases haside.lookup hc hd with ⟨rfl, hdid⟩ | ⟨hg, b, hb, hbid⟩
    · rw [hdid, if_pos rfl, Function.update_self]
      rcases htold with ⟨-, hgone⟩ | ⟨-, hret⟩
      · have hnone := hgone u s' [] rfl
        rw [hd] at hnone
        cases hnone
      · exact hret u s' rfl
    · have hne : d.id ≠ c.id := hbid ▸ hother g b hg hb
      rw [if_neg hne, Function.update_of_ne hne, ← hbid]
      exact h.live g b hb
  · have hcount : s.count ≤ id := haside.count ▸ hid
    have hne : id ≠ c.id := Nat.ne_of_gt (Nat.lt_of_lt_of_le (h.wired.numbered.lt r.fd c hc) hcount)
    rw [Function.update_of_ne hne, show s'.log = s.log ++ casts c.id chunks from hlog, castBytes_append, if_neg hne]
    exact h.fresh id hcount
  · rintro (hlisten | ⟨b, hb, hover'⟩)
    · exact .inl (hspares.listenSockets ▸ hlisten)
    · have hids := haside.others r'.fd hr'
      rw [hb, Option.map_some, Option.map_eq_some_iff] at hids
      obtain ⟨d, hd, hdid⟩ := hids
      refine .inr ⟨d, hd, ?_⟩
      rw [hdid, Function.update_of_ne (hother r'.fd b hr' hb)]
      exact hover'

/-- The step of the induction over a batch. -/
theorem handleReport_heard (h : Heard s inbox) (hready : Ready s inbox r)
    (hrun : handleReport r s inbox = some (o, inbox')) :
    Delivered o.state inbox' ∧ ∀ u s', o = .ret u s' [] → Heard s' inbox' ∧ s'.listenSockets = s.listenSockets ∧
      ∀ r', r'.fd ≠ r.fd → Ready s inbox r' → Ready s' inbox' r' := by
  by_cases hl : r.fd ∈ s.listenSockets
  · have hnone : s.clients.lookup r.fd = none := by
      by_contra hn
      obtain ⟨c, hc⟩ := Option.ne_none_iff_exists'.1 hn
      exact (h.wired.client r.fd (mem_clients.2 ⟨c, hc⟩)).2.1 hl
    simp only [handleReport, hnone, Option.some.injEq, Prod.mk.injEq] at hrun
    obtain ⟨rfl, rfl⟩ := hrun
    have hl' : r.event.fd ∈ s.listenSockets := hl
    rw [handleEvent, if_pos hl']
    have hadm := handleListeners_admits s r.event.events r.event.answers
    refine ⟨fun id hid => ?_, fun u s' ho => ?_⟩
    · rw [hadm.log]
      exact h.gone id fun ⟨fd, c, hc, he⟩ => hid ⟨fd, c, hadm.old fd c hc, he⟩
    · rw [ho] at hadm
      obtain ⟨hgrows, -⟩ := handleListeners_grows h.wired ho
      refine ⟨listener_heard h hadm (hgrows.wired h.wired), hgrows.listenSockets, fun r' _ hr' => ?_⟩
      rcases hr' with hr' | ⟨c, hc, hover⟩
      · exact .inl (hgrows.listenSockets ▸ hr')
      · exact .inr ⟨c, hadm.old _ c hc, hover⟩
  · obtain ⟨c, hc, hover⟩ := hready.resolve_left hl
    simp only [handleReport, hc, Option.map_eq_some_iff, Prod.mk.injEq] at hrun
    obtain ⟨k', hplays, ho, rfl⟩ := hrun
    have hl' : r.event.fd ∉ s.listenSockets := hl
    rw [handleEvent, if_neg hl'] at ho
    exact client_heard h hl hc hover hplays ho

theorem handleReports_heard {rs : List Report} (hnd : (rs.map Report.fd).Nodup) (h : Heard s inbox)
    (hready : ∀ r ∈ rs, Ready s inbox r) (hrun : handleReports rs s inbox = some (o, inbox')) :
    Delivered o.state inbox' ∧ ∀ u s' l, o = .ret u s' l → Heard s' inbox' := by
  induction rs generalizing s inbox with
  | nil =>
    cases hrun
    refine ⟨h.gone, fun u s' l ho => ?_⟩
    cases ho
    exact h
  | cons r rs ih =>
    obtain ⟨hr, hnd⟩ := List.nodup_cons.1 hnd
    rw [handleReports] at hrun
    split at hrun
    next u t k hone =>
      obtain ⟨-, hret⟩ := handleReport_heard h (hready r List.mem_cons_self) hone
      obtain ⟨ht, -, hrest⟩ := hret u t rfl
      refine ih hnd ht (fun r' hr' => hrest r' (fun he => hr (he ▸ List.mem_map_of_mem hr')) ?_) hrun
      exact hready r' (List.mem_cons_of_mem r hr')
    next hone =>
      cases hrun
      exact ⟨(handleReport_heard h (hready r List.mem_cons_self) hone).1, fun _ _ _ h' => by cases h'⟩
    next => cases hrun

/-! ## Runs -/

/-- `Stop` broadcasts nothing. -/
theorem stop_log (s : Server) (l : List Answer) : (stop s l).state.log = s.log := by
  have hkeeps : Prog.Keeps (fun t => t.log = s.log) stop := by
    refine Prog.keeps_get.bind fun t => Prog.keeps_ite (Prog.keeps_pure ()) ?_
    have hmodify : ∀ f : Server → Server, (∀ t, (f t).log = t.log) →
        Prog.Keeps (fun t => t.log = s.log) (Prog.modify f : Prog Server Answer Unit) :=
      fun f hf => Prog.keeps_modify fun t ht => (hf t).trans ht
    refine Prog.Keeps.bind ?_ fun _ => Prog.Keeps.bind ?_ fun _ => Prog.Keeps.bind ?_ fun _ => ?_
    · exact Prog.keeps_each (fun fd => ClientSession.keeps_stop (fun _ _ ht => ht) fun _ ht => ht) _
    · exact hmodify _ fun _ => rfl
    · exact Prog.keeps_each (fun fd => hmodify (·.close fd) fun _ => rfl) _
    · exact hmodify _ fun _ => rfl
  exact hkeeps s l rfl

theorem move_heard {fd : Fd} {c : ClientSession} {m : Move} {k : Inbox} (h : Heard s inbox)
    (hc : s.clients.lookup fd = some c) (hm : (inbox c.id).move m = some k) (ha : m.answer? = none) :
    Heard s (Function.update inbox c.id k) := by
  refine ⟨h.wired, fun g d hd => ?_, fun id hid hb => ?_, fun id hid => ?_⟩
  · by_cases he : d.id = c.id
    · have htold := Inbox.move_told hm (h.live fd c hc)
      rw [ha, Option.toList_none, received, List.append_nil] at htold
      rwa [he, Function.update_self]
    · rw [Function.update_of_ne he]
      exact h.live g d hd
  · have he : id ≠ c.id := fun he => hid ⟨fd, c, hc, he.symm⟩
    rw [Function.update_of_ne he] at hb ⊢
    exact h.gone id hid hb
  · have he : id ≠ c.id := Nat.ne_of_gt (Nat.lt_of_lt_of_le (h.wired.numbered.lt fd c hc) hid)
    rw [Function.update_of_ne he]
    exact h.fresh id hid

/-- The invariant of the runs. -/
def NetInv (n : Net) : Prop :=
  n.Delivers ∧ (n.state.phase = .loop ∨ n.state.phase = .stopping → Heard n.state.server n.inbox)

theorem external_inv {n n' : Net} {fd : Fd} {m : Move} (h : NetInv n) (ha : m.answer? = none)
    (hst : n.external fd m = some n') : NetInv n' := by
  unfold Net.external at hst
  split at hst
  next hphase hc =>
    obtain ⟨k, hk, rfl⟩ := Option.map_eq_some_iff.1 hst
    have hheard := move_heard (h.2 (.inl hphase)) hc hk ha
    exact ⟨hheard.gone, fun _ => hheard⟩
  next hphase hc =>
    obtain ⟨k, hk, rfl⟩ := Option.map_eq_some_iff.1 hst
    have hheard := move_heard (h.2 (.inr hphase)) hc hk ha
    exact ⟨hheard.gone, fun _ => hheard⟩
  next => cases hst

/-- The events of a batch are ready. -/
theorem shown_ready {n : Net} {batch : List Report} (h : Heard n.state.server n.inbox)
    (hshown : ∀ r ∈ batch, n.Shown r) (hok : n.Emptied (.events batch)) {r : Report} (hr : r ∈ batch) :
    Ready n.state.server n.inbox r := by
  obtain ⟨hasks, hshows⟩ := hshown r hr
  have hreg : (n.state.server.interest r.fd).isSome := by
    have hasks : Asks n.state.server r.event := hasks
    unfold Asks at hasks
    split at hasks
    next => exact hasks.elim
    next _ hi =>
      have hi : n.state.server.interest r.fd = some _ := hi
      rw [hi, Option.isSome_some]
  refine (h.wired.registered r.fd hreg).imp_right fun hclient => ?_
  obtain ⟨c, hc⟩ := mem_clients.1 hclient
  exact ⟨c, hc, fun herr hrd => ⟨hok r hr herr hrd c hc, (hshows c hc).1.1 hrd⟩⟩

theorem step_inv {n n' : Net} {x : Net.Input} (h : NetInv n) (hok : n.Emptied x) (hst : n.step x = some n') :
    NetInv n' := by
  cases x with
  | arrive fd b => exact external_inv h rfl hst
  | finish fd => exact external_inv h rfl hst
  | interrupted | failed =>
    obtain ⟨s, hs, rfl⟩ := Option.map_eq_some_iff.1 hst
    obtain ⟨⟨phase, t⟩, inbox⟩ := n
    cases phase <;> simp only [step, Option.some.injEq, reduceCtorEq] at hs
    subst hs
    exact ⟨h.1, fun _ => h.2 (.inl rfl)⟩
  | events batch =>
    simp only [Net.step, Option.ite_none_right_eq_some, Option.map_eq_some_iff] at hst
    obtain ⟨⟨hloop, hnd, -, hshown⟩, ⟨o, inbox⟩, hrun, rfl⟩ := hst
    have hheard := h.2 (.inl hloop)
    have hreported : Heard (report n.state.server (batch.map Report.fd)) n.inbox :=
      ⟨report_wired hheard.wired _, hheard.live, hheard.gone, hheard.fresh⟩
    obtain ⟨hdel, hret⟩ := handleReports_heard hnd hreported (fun r hr => shown_ready hheard hshown hok hr) hrun
    refine ⟨?_, fun hphase => ?_⟩
    · rw [Net.Delivers, State.of_server]
      exact hdel
    · cases o with
      | ret u s l => exact hret u s l rfl
      | halt e s =>
        have : (Phase.halted e = .loop) ∨ (Phase.halted e = .stopping) := hphase
        simp at this
  | stop answers =>
    obtain ⟨s, hs, rfl⟩ := Option.map_eq_some_iff.1 hst
    obtain ⟨⟨phase, t⟩, inbox⟩ := n
    cases phase <;> simp only [step, Option.some.injEq, reduceCtorEq] at hs
    subst hs
    have hheard := h.2 (.inr rfl)
    refine ⟨fun id _ hb => ?_, fun hphase => ?_⟩
    · rw [State.of_server, stop_log]
      by_cases hlive : Live t id
      · -- the sessions that are still there have no unread bytes
        obtain ⟨fd, c, hc, rfl⟩ := hlive
        have htold := hheard.live fd c hc
        have hunread : (inbox c.id).unread = [] := hok fd (mem_clients.2 ⟨c, hc⟩) c hc
        simpa [Inbox.Told, hunread] using htold
      · exact hheard.gone id hlive hb
    · cases hrun : stop t answers <;> simp [hrun, State.of] at hphase

/-- The client `5` connects. -/
def connectOne : Net.Input := .events [⟨3, epollIn, [.answer (.accepted 5), .answer (.refused .EAGAIN)]⟩]

/-- It sends two bytes, of which the second arrives while the first is being broadcast, and closes. -/
def readThenClose : List Net.Input :=
  [connectOne, .arrive 5 [104],
    .events [⟨5, epollIn, [.answer (.recv (.bytes [104])), .arrive [105], .answer (.recv (.bytes [105])),
      .answer (.recv (.error .EAGAIN))]⟩],
    .finish 5, .events [⟨5, epollIn ||| epollRdHup, [.answer (.recv .closed)]⟩]]

/-- It sends a byte and closes before `epoll_wait` reports anything. -/
def closeUnread : List Net.Input :=
  [connectOne, .arrive 5 [104], .finish 5,
    .events [⟨5, epollIn ||| epollRdHup, [.answer (.recv (.bytes [104])), .answer (.recv .closed)]⟩]]

end TcpChat.Epoll
