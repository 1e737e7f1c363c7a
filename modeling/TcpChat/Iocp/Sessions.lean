import TcpChat.Iocp.Effects

/-!
# The sessions, the sockets and the operations

Between two completions the sessions that exist are those of the registry, each under its own open socket, and the
sockets that wait for a connection belong to nobody else.

* `Homed` — the invariant, which every run keeps (`homed_of_reach`);
* `Connected` — what the acceptance of a connection adds.
-/

namespace TcpChat.Iocp

open TcpChat.Lib

/-- The socket of a connection that has not been accepted yet. -/
def Op.acceptSock : Op → Option Socket
  | accept _ acceptSock => some acceptSock
  | _ => none

/-- The sockets of all connections that have not been accepted yet. -/
def Server.acceptSocks (s : Server) : List Socket := s.outstanding.filterMap Op.acceptSock

/-- The invariant. -/
structure Homed (s : Server) : Prop where
  client : ∀ sock p, s.clients.lookup sock = some p → s.opened sock ∧ ∃ c, s.heap p = some c ∧ c.socket = some sock
  live : ∀ p c, s.heap p = some c → p < s.count ∧ Registered s.clients p
  key : ∀ op ∈ s.outstanding, ∀ p ∈ op.key, p < s.count
  acceptSock : ∀ a ∈ s.acceptSocks, s.opened a ∧ a ∉ s.clients
  nodup : s.acceptSocks.Nodup

variable {s s' t : Server} {op : Op} {p q : Ptr} {sock sock' as ls : Socket} {c : ClientSession} {l l' k : List Answer}
  {b : Bool} {u : Unit} {x : Input}

theorem Homed.registered_live (h : Homed s) (hp : Registered s.clients p) : p < s.count := by
  obtain ⟨sock, hsock⟩ := hp
  obtain ⟨-, c, hc, -⟩ := h.client sock p hsock
  exact (h.live p c hc).1

/-- A session is registered under one socket only. -/
theorem Homed.socket_unique (h : Homed s) (hs : s.clients.lookup sock = some p) (hs' : s.clients.lookup sock' = some p) :
    sock' = sock := by
  obtain ⟨-, c, hc, hsock⟩ := h.client sock p hs
  obtain ⟨-, c', hc', hsock'⟩ := h.client sock' p hs'
  obtain rfl : c = c' := Option.some.inj (hc.symm.trans hc')
  exact Option.some.inj (hsock'.symm.trans hsock)

/-- The socket of a session is the one under which it is registered. -/
theorem Homed.lookup_socket (h : Homed s) (hc : s.heap p = some c) :
    ∃ sock, c.socket = some sock ∧ s.clients.lookup sock = some p := by
  obtain ⟨-, sock, hsock⟩ := h.live p c hc
  obtain ⟨-, c', hc', hsock'⟩ := h.client sock p hsock
  obtain rfl : c = c' := Option.some.inj (hc.symm.trans hc')
  exact ⟨sock, hsock', hsock⟩

theorem acceptSocks_perm (h : s.outstanding.Perm (op :: s'.outstanding)) :
    s.acceptSocks.Perm (op.acceptSock.toList ++ s'.acceptSocks) := by
  have hperm := h.filterMap Op.acceptSock
  cases hop : op.acceptSock with
  | none => rwa [List.filterMap_cons_none hop] at hperm
  | some a => rwa [List.filterMap_cons_some hop] at hperm

/-! ## Receiving and sending -/

/-- A receive or a send of a session. -/
theorem Homed.start (h : Homed s) (hop : op.acceptSock = none) (hkey : ∀ p ∈ op.key, p < s.count) :
    Homed (s.start op) := by
  have hperm := s.outstanding_start op
  have haccept := acceptSocks_perm hperm
  rw [hop] at haccept
  refine ⟨h.client, h.live, fun o ho => ?_, fun a ha => h.acceptSock a (haccept.mem_iff.1 ha),
    haccept.nodup_iff.2 h.nodup⟩
  rcases List.mem_cons.1 (hperm.mem_iff.1 ho) with rfl | ho
  · exact hkey
  · exact h.key o ho

theorem Sends.heap_back {P : Ptr → Prop} {d : ClientSession} (h : Sends P s l s' l') (hd : s'.heap p = some d) :
    ∃ c, s.heap p = some c ∧ c.socket = d.socket := by
  have hmap := h.socket p
  rw [hd, Option.map_some, eq_comm, Option.map_eq_some_iff] at hmap
  exact hmap

theorem Homed.sends {P : Ptr → Prop} (h : Homed s) (hsends : Sends P s l s' l') (hp : ∀ p, P p → p < s.count) :
    Homed s' := by
  obtain ⟨ops, hops, hsend⟩ := hsends.outstanding
  have haccept : s'.acceptSocks.Perm s.acceptSocks := by
    have hnone : ops.filterMap Op.acceptSock = [] := by
      refine List.filterMap_eq_nil_iff.2 fun op hop => ?_
      obtain ⟨p, sock, rfl, -⟩ := hsend op hop
      rfl
    have hperm := hops.filterMap Op.acceptSock
    rwa [List.filterMap_append, hnone] at hperm
  refine ⟨fun sock p hp => ?_, fun p d hd => ?_, fun op hop p hkey => ?_, fun a ha => ?_, haccept.nodup_iff.2 h.nodup⟩
  · rw [hsends.clients] at hp
    obtain ⟨ho, c, hc, hsock⟩ := h.client sock p hp
    have hmap := hsends.socket p
    rw [hc, Option.map_some, Option.map_eq_some_iff] at hmap
    obtain ⟨d, hd, hds⟩ := hmap
    exact ⟨hsends.opened ▸ ho, d, hd, hds.trans hsock⟩
  · obtain ⟨c, hc, -⟩ := hsends.heap_back hd
    rw [hsends.count, hsends.clients]
    exact h.live p c hc
  · rw [hsends.count]
    rcases List.mem_append.1 (hops.mem_iff.1 hop) with hop | hop
    · obtain ⟨q, sock, rfl, hq⟩ := hsend op hop
      obtain rfl : q = p := Option.some.inj hkey
      exact hp q hq
    · exact h.key op hop p hkey
  · rw [hsends.opened, hsends.clients]
    exact h.acceptSock a (haccept.mem_iff.1 ha)

theorem postRecv_homed (h : Homed s) (hret : postRecv p s l = .ret b s' l') : Homed s' := by
  obtain ⟨c, hc, hcases⟩ := postRecv_ret hret
  rcases hcases with ⟨-, -, sock, -, rfl⟩ | ⟨-, -, rfl⟩
  · refine h.start rfl fun q hq => ?_
    obtain rfl : p = q := Option.some.inj hq
    exact (h.live p c hc).1
  · exact h

/-! ## Closing -/

/-- A session is closed together with the socket under which it is registered. -/
theorem Homed.closed (h : Homed s) (hc : Closed s s' sock p)
    (hreg : ∀ sock' q, s.clients.lookup sock' = some q → (sock' = sock ↔ q = p)) (hsock : sock ∉ s.acceptSocks) :
    Homed s' := by
  obtain ⟨hclients, hheap, hopened, hout, hcount⟩ := hc
  have haccept : s'.acceptSocks = s.acceptSocks := by rw [Server.acceptSocks, hout, Server.acceptSocks]
  refine ⟨fun sock' q hq => ?_, fun q d hd => ?_, fun op hop q hq => ?_, fun a ha => ?_, haccept ▸ h.nodup⟩
  · obtain ⟨hne, hq⟩ := (hclients sock' q).1 hq
    obtain ⟨hsock', c, hc, hcs⟩ := h.client sock' q hq
    have hqp : q ≠ p := fun he => hne ((hreg sock' q hq).2 he)
    rw [hopened, hheap, Function.update_of_ne hne, Function.update_of_ne hqp]
    exact ⟨hsock', c, hc, hcs⟩
  · rw [hheap] at hd
    by_cases hqp : q = p
    · rw [hqp, Function.update_self] at hd
      cases hd
    · rw [Function.update_of_ne hqp] at hd
      obtain ⟨hlt, sock', hq⟩ := h.live q d hd
      exact ⟨Nat.lt_of_lt_of_le hlt hcount, sock', (hclients sock' q).2 ⟨fun he => hqp ((hreg sock' q hq).1 he), hq⟩⟩
  · rw [hout] at hop
    exact Nat.lt_of_lt_of_le (h.key op hop q hq) hcount
  · rw [haccept] at ha
    obtain ⟨ho, hm⟩ := h.acceptSock a ha
    have hne : a ≠ sock := fun he => hsock (he ▸ ha)
    rw [hopened, Function.update_of_ne hne]
    refine ⟨ho, fun hmem => hm ?_⟩
    obtain ⟨q, hq⟩ := Option.isSome_iff_exists.1 (AList.lookup_isSome.2 hmem)
    exact mem_clients ((hclients a q).1 hq).2

/-- The session that a handler closes is registered. -/
theorem Homed.erase_closed (h : Homed s) (hc : s.heap p = some c) :
    ∃ sock, s.clients.lookup sock = some p ∧ Closed s ((s.stop p).erase c.socket) sock p := by
  obtain ⟨sock, hsock, hp⟩ := h.lookup_socket hc
  exact ⟨sock, hp, closed_erase hc hsock hp⟩

theorem Homed.erase (h : Homed s) (hc : s.heap p = some c) : Homed ((s.stop p).erase c.socket) := by
  obtain ⟨sock, hp, hclosed⟩ := h.erase_closed hc
  refine h.closed hclosed (fun sock' q hq => ⟨?_, ?_⟩) fun hmem => (h.acceptSock sock hmem).2 (mem_clients hp)
  · rintro rfl
    exact Option.some.inj (hq.symm.trans hp)
  · rintro rfl
    exact h.socket_unique hp hq

/-! ## Accepting -/

theorem createAcceptSocket_homed (h : Homed s) (hret : createAcceptSocket ls s l = .ret b s' l') : Homed s' := by
  rcases createAcceptSocket_ret hret with ⟨a, -, hclosed, rfl⟩ | ⟨-, rfl⟩
  swap
  · exact h
  have hopened : ∀ sock, s.opened sock → sock ≠ a := by
    rintro sock hsock rfl
    exact absurd (hclosed.symm.trans hsock) (by decide)
  have hperm := Server.outstanding_start { s with opened := Function.update s.opened a true } (.accept ls a)
  have haccept := acceptSocks_perm hperm
  refine ⟨fun sock p hp => ?_, h.live, fun o ho => ?_, fun a' ha' => ?_,
    haccept.nodup_iff.2 (List.nodup_cons.2 ⟨?_, h.nodup⟩)⟩
  · obtain ⟨hsock, hc⟩ := h.client sock p hp
    exact ⟨(Function.update_of_ne (hopened sock hsock) ..).trans hsock, hc⟩
  · rcases List.mem_cons.1 (hperm.mem_iff.1 ho) with rfl | ho
    · simp [Op.key]
    · exact h.key o ho
  · rcases List.mem_cons.1 (haccept.mem_iff.1 ha') with rfl | ha'
    · refine ⟨Function.update_self .., fun hmem => ?_⟩
      obtain ⟨p, hp⟩ := Option.isSome_iff_exists.1 (AList.lookup_isSome.2 hmem)
      exact hopened _ (h.client _ p hp).1 rfl
    · obtain ⟨hsock, hmem⟩ := h.acceptSock a' ha'
      exact ⟨(Function.update_of_ne (hopened a' hsock) ..).trans hsock, hmem⟩
  · intro ha
    exact hopened a (h.acceptSock a ha).1 rfl

/-- The accepted socket belongs to nobody yet. -/
structure Unclaimed (s : Server) (as : Socket) : Prop where
  opened : s.opened as
  client : as ∉ s.clients
  accept : as ∉ s.acceptSocks

theorem Unclaimed.ne (hu : Unclaimed s as) (hq : s.clients.lookup sock = some q) : sock ≠ as := by
  rintro rfl
  exact hu.client (mem_clients hq)

/-- A new session, with its first receive, has been registered. -/
structure Connected (s s' : Server) (as : Socket) : Prop where
  clients : ∀ sock, s'.clients.lookup sock = if sock = as then some s.count else s.clients.lookup sock
  heap : ∃ c, c.socket = some as ∧ s'.heap = Function.update s.heap s.count (some c)
  opened : s'.opened = s.opened
  count : s'.count = s.count + 1
  outstanding : s'.outstanding.Perm (.recv s.count as :: s.outstanding)

theorem Connected.registered (hc : Connected s s' as) (hu : Unclaimed s as) (hp : Registered s.clients p) :
    Registered s'.clients p := by
  obtain ⟨sock, hp⟩ := hp
  exact ⟨sock, by rw [hc.clients, if_neg (hu.ne hp), hp]⟩

/-- What is not claimed by a session may be closed, together with a session that is not registered. -/
theorem Homed.closed_unclaimed (h : Homed s) (hu : Unclaimed s as) (hc : Closed s s' as s.count) : Homed s' := by
  refine h.closed hc (fun sock q hq => ⟨?_, ?_⟩) hu.accept
  · intro he
    exact absurd he (hu.ne hq)
  · rintro rfl
    exact absurd (h.registered_live ⟨sock, hq⟩) (Nat.lt_irrefl _)

theorem Homed.connect (h : Homed s) (hu : Unclaimed s as) (hc : Connected s s' as) : Homed s' := by
  have hregistered : ∀ {q}, Registered s.clients q → Registered s'.clients q := hc.registered hu
  obtain ⟨hlookup, ⟨c, hsock, hheap⟩, hopened, hcount, hout⟩ := hc
  have haccept := acceptSocks_perm hout
  refine ⟨fun sock q hq => ?_, fun q d hd => ?_, fun op hop q hq => ?_, fun a ha => ?_, haccept.nodup_iff.2 h.nodup⟩
  · rw [hopened]
    rw [hlookup] at hq
    split at hq
    next he =>
      obtain rfl : s.count = q := Option.some.inj hq
      exact ⟨he ▸ hu.opened, c, by rw [hheap, Function.update_self], he ▸ hsock⟩
    next =>
      obtain ⟨ho, d, hd, hds⟩ := h.client sock q hq
      exact ⟨ho, d, by rw [hheap, Function.update_of_ne (Nat.ne_of_lt (h.live q d hd).1), hd], hds⟩
  · rw [hcount]
    by_cases he : q = s.count
    · exact ⟨he ▸ Nat.lt_succ_self _, as, by rw [hlookup, if_pos rfl, he]⟩
    · rw [hheap, Function.update_of_ne he] at hd
      obtain ⟨hlt, hreg⟩ := h.live q d hd
      exact ⟨Nat.lt_succ_of_lt hlt, hregistered hreg⟩
  · rw [hcount]
    rcases List.mem_cons.1 (hout.mem_iff.1 hop) with rfl | hop
    · obtain rfl : s.count = q := Option.some.inj hq
      exact Nat.lt_succ_self _
    · exact Nat.lt_succ_of_lt (h.key op hop q hq)
  · have ha' : a ∈ s.acceptSocks := haccept.mem_iff.1 ha
    obtain ⟨ho, hm⟩ := h.acceptSock a ha'
    refine ⟨hopened ▸ ho, fun hmem => ?_⟩
    obtain ⟨q, hq⟩ := Option.isSome_iff_exists.1 (AList.lookup_isSome.2 hmem)
    rw [hlookup] at hq
    split at hq
    next he => exact hu.accept (he ▸ ha')
    next => exact hm (mem_clients hq)

/-- Nothing is registered and the socket is closed, or a session is registered and `CreateAcceptSocket` is called. -/
theorem onAcceptComplete_cases {ok : Bool} (h : Homed s) (hu : Unclaimed s as)
    (hret : onAcceptComplete ls as ok s l = .ret u s' l') :
    Closed s s' as s.count ∨ ∃ t k b, Connected s t as ∧ createAcceptSocket ls t k = .ret b s' l' := by
  have hclients : ∀ sock q, s.clients.lookup sock = some q ↔ sock ≠ as ∧ s.clients.lookup sock = some q :=
    fun sock q => ⟨fun hq => ⟨hu.ne hq, hq⟩, fun hq => hq.2⟩
  have hnone : s.heap s.count = none := by
    by_contra hne
    obtain ⟨c, hc⟩ := Option.ne_none_iff_exists'.1 hne
    exact Nat.lt_irrefl _ (h.live s.count c hc).1
  have hnew : (s.make as).heap s.count = some ⟨some as, [], false, [], []⟩ := Function.update_self ..
  rcases onAcceptComplete_ret hret with ⟨-, rfl⟩ | ⟨-, -, rfl⟩ | ⟨-, k, b, -, hcreate⟩
  · refine .inl ⟨hclients, ?_, rfl, s.outstanding_closesocket as, Nat.le_refl _⟩
    exact (Function.update_eq_self_iff.2 hnone.symm).symm
  · refine .inl ⟨?_, ?_, ?_, ?_, ?_⟩
    · rw [Server.clients_destroy, Server.clients_stop]
      exact hclients
    · rw [Server.heap_destroy, Server.heap_stop, Function.update_idem]
      exact Function.update_idem ..
    · exact (s.make as).opened_stop_destroy _ as hnew rfl
    · rw [Server.outstanding_destroy, Server.outstanding_stop]
      rfl
    · rw [Server.count_destroy, Server.count_stop]
      exact Nat.le_succ _
  · have hclient : as ∉ ((s.make as).start (.recv s.count as)).clients := hu.client
    rw [Server.emplace, if_neg hclient] at hcreate
    refine .inr ⟨_, k, b, ?_, hcreate⟩
    refine ⟨fun sock => ?_, ⟨_, rfl, rfl⟩, rfl, rfl, (s.make as).outstanding_start _⟩
    exact Table.lookup_emplace_of_notMem hu.client

/-! ## Runs -/

/-- An operation completes, or its packet is taken. -/
theorem Homed.rest {pending : List Pending} {packets : List Packet} (h : Homed s) (ops : List Op)
    (hout : s.outstanding.Perm (ops ++ Server.outstanding { s with pending := pending, packets := packets })) :
    Homed { s with pending := pending, packets := packets } := by
  have haccept := hout.filterMap Op.acceptSock
  rw [List.filterMap_append] at haccept
  refine ⟨h.client, h.live, fun o ho => ?_, fun a ha => ?_, ?_⟩
  · exact h.key o (hout.mem_iff.2 (List.mem_append_right _ ho))
  · exact h.acceptSock a (haccept.mem_iff.2 (List.mem_append_right _ ha))
  · exact (List.nodup_append.1 (haccept.nodup_iff.1 h.nodup)).2.1

theorem Homed.unclaimed {packets : List Packet} (h : Homed s)
    (hout : s.outstanding.Perm (.accept ls as :: Server.outstanding { s with packets := packets })) :
    Unclaimed { s with packets := packets } as := by
  have haccept := acceptSocks_perm hout
  obtain ⟨hopened, hclient⟩ := h.acceptSock as (haccept.mem_iff.2 List.mem_cons_self)
  exact ⟨hopened, hclient, (List.nodup_cons.1 (haccept.nodup_iff.1 h.nodup)).1⟩

theorem homed_init (h : server.init s) : Homed s :=
  of_init (fun _ => ⟨nofun, nofun, nofun, nofun, List.nodup_nil⟩)
    (fun _ _ _ _ _ _ h hret => createAcceptSocket_homed h hret) h

theorem homed_step (h : Homed s) (hst : s.step x = some s') : Homed s' := by
  rcases Server.step_cases hst with ⟨k, ok, data, o, rfl, ho, -, rfl⟩ | ⟨answers, packet, packets, l', rfl, hp, hret⟩
  · exact h.rest [] (Server.outstanding_complete ho ok data).symm
  have hperm := Server.outstanding_dequeue hp
  have hrest : Homed { s with packets := packets } := h.rest [packet.op] hperm
  rcases handlePacket_ret hret with ⟨ls, as, hop, hret⟩ | ⟨q, c, -, -, hc, rfl⟩ |
    ⟨q, sock, t, k, b, -, -, hsends, hrecv⟩ | ⟨q, sock, c, -, hc, hsends⟩
  · have hu := h.unclaimed (hop ▸ hperm)
    rcases onAcceptComplete_cases hrest hu hret with hclosed | ⟨t, k, b, hconnected, hcreate⟩
    · exact hrest.closed_unclaimed hu hclosed
    · exact createAcceptSocket_homed (hrest.connect hu hconnected) hcreate
  · exact hrest.erase hc
  · exact postRecv_homed (hrest.sends hsends fun p hp => hrest.registered_live hp) hrecv
  · refine hrest.sends hsends ?_
    rintro q rfl
    exact (hrest.live q c hc).1

/-- **Every run keeps the invariant.** -/
theorem homed_of_reach (h : server.Reachable s) : Homed s :=
  h.invariant Homed (fun _ hi => homed_init hi) fun _ _ _ _ hs _ hst => homed_step hs hst

end TcpChat.Iocp
