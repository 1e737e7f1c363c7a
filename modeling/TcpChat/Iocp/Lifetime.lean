import TcpChat.Iocp.Sessions

/-!
# The sessions of outstanding operations

The completion key of an operation is the address of its session, and the handlers follow it without a check.  A
session has a receive and a send outstanding at once, and the handler of either one closes and erases it.  If the other
one is still outstanding then, its key is the address of a session that does not exist any more.

* `Owned` — the sessions, the sockets and the outstanding operations agree;
* `keys_owned` — all keys are sessions of the registry, if a session is closed only after its other operations;
* `dangling` — otherwise closing it leaves a key that is no session, as in `dangling_send`.
-/

namespace TcpChat.Iocp

open TcpChat.Lib

/-! ## The invariant -/

structure Owned (s : Server) : Prop where
  client : ∀ sock p, s.clients.lookup sock = some p → s.opened sock ∧ ∃ c, s.heap p = some c ∧ c.socket = some sock
  live : ∀ p c, s.heap p = some c → p < s.count
  key : ∀ op ∈ s.outstanding, ∀ p ∈ op.key, ∃ sock, s.clients.lookup sock = some p
  acceptSock : ∀ a ∈ s.acceptSocks, s.opened a ∧ a ∉ s.clients
  nodup : s.acceptSocks.Nodup

/-- All keys are sessions of the registry. -/
def Keyed (s : Server) : Prop := ∀ op ∈ s.outstanding, ∀ p ∈ op.key, Registered s.clients p

variable {s s' : Server} {op : Op} {p q : Ptr} {sock as ls : Socket} {c : ClientSession} {l l' : List Answer}
  {msg : List UInt8} {b : Bool} {u : Unit}

theorem Homed.owned (h : Homed s) (hkey : Keyed s) : Owned s :=
  ⟨h.client, fun p c hc => (h.live p c hc).1, hkey, h.acceptSock, h.nodup⟩

theorem Keyed.perm (h : Keyed s) (ops : List Op) (hclients : s'.clients = s.clients)
    (hout : s'.outstanding.Perm (ops ++ s.outstanding))
    (hops : ∀ op ∈ ops, ∀ p ∈ op.key, Registered s.clients p) : Keyed s' := by
  intro op hop p hp
  rw [hclients]
  exact (List.mem_append.1 (hout.mem_iff.1 hop)).elim (fun hop => hops op hop p hp) fun hop => h op hop p hp

theorem Keyed.sends {P : Ptr → Prop} (h : Keyed s) (hsends : Sends P s l s' l')
    (hp : ∀ p, P p → Registered s.clients p) : Keyed s' := by
  obtain ⟨ops, hops, hsend⟩ := hsends.outstanding
  refine h.perm _ hsends.clients hops fun op hop q hq => ?_
  obtain ⟨p, sock, rfl, hP⟩ := hsend op hop
  obtain rfl : p = q := Option.some.inj hq
  exact hp p hP

theorem Keyed.postRecv (h : Keyed s) (hp : Registered s.clients p) (hret : postRecv p s l = .ret b s' l') :
    Keyed s' := by
  obtain ⟨c, -, ⟨-, -, sock, -, rfl⟩ | ⟨-, -, rfl⟩⟩ := postRecv_ret hret
  · refine h.perm [.recv p sock] rfl (s.outstanding_start _) fun op hop q hq => ?_
    obtain rfl := List.mem_singleton.1 hop
    obtain rfl : p = q := Option.some.inj hq
    exact hp
  · exact h

/-- A session may be closed if no operation of it is outstanding. -/
theorem Keyed.closed (h : Keyed s) (hc : Closed s s' sock p)
    (hsock : ∀ q, s.clients.lookup sock = some q → q = p) (hnone : ∀ op ∈ s.outstanding, op.key ≠ some p) :
    Keyed s' := by
  intro op hop q hq
  rw [hc.outstanding] at hop
  obtain ⟨sock', hq'⟩ := h op hop q hq
  refine ⟨sock', (hc.clients sock' q).2 ⟨?_, hq'⟩⟩
  rintro rfl
  rw [hsock q hq'] at hq
  exact hnone op hop hq

theorem Keyed.connect (h : Keyed s) (hu : Unclaimed s as) (hc : Connected s s' as) : Keyed s' := by
  intro op hop q hq
  rcases List.mem_cons.1 (hc.outstanding.mem_iff.1 hop) with rfl | hop
  · obtain rfl : s.count = q := Option.some.inj hq
    exact ⟨as, by rw [hc.clients, if_pos rfl]⟩
  · exact hc.registered hu (h op hop q hq)

theorem createAcceptSocket_keyed (h : Keyed s) (hret : createAcceptSocket ls s l = .ret b s' l') : Keyed s' := by
  rcases createAcceptSocket_ret hret with ⟨a, -, -, rfl⟩ | ⟨-, rfl⟩
  · refine h.perm [.accept ls a] rfl (Server.outstanding_start _ _) fun op hop q hq => ?_
    rw [List.mem_singleton.1 hop] at hq
    cases hq
  · exact h

/-! ## Runs -/

/-- When a handler closes a session, no other operation of the session is outstanding. -/
def ClosesAlone (s : Server) : Input → Prop
  | .complete _ _ _ => True
  | .dequeue _ => ∀ packet ∈ s.packets.head?, packet.Closes →
      ∀ op ∈ s.pending.map Pending.op ++ s.packets.tail.map Packet.op, op.key ≠ packet.op.key

instance (s : Server) : DecidablePred (ClosesAlone s)
  | .complete _ _ _ => isTrue trivial
  | .dequeue _ => inferInstanceAs (Decidable (∀ packet ∈ s.packets.head?, _))

theorem keyed_init (h : server.init s) : Keyed s :=
  of_init (fun _ => by simp [Keyed, Server.outstanding, Server.listening])
    (fun _ _ _ _ _ _ h hret => createAcceptSocket_keyed h hret) h

theorem keyed_step {x : Input} (hh : Homed s) (h : Keyed s) (hok : ClosesAlone s x) (hst : s.step x = some s') :
    Keyed s' := by
  rcases Server.step_cases hst with ⟨k, ok, data, o, rfl, ho, -, rfl⟩ | ⟨answers, packet, packets, l', rfl, hp, hret⟩
  · exact h.perm [] rfl (Server.outstanding_complete ho ok data) (by simp)
  have hperm := Server.outstanding_dequeue hp
  have hrest : Homed { s with packets := packets } := hh.rest [packet.op] hperm
  have hkeyed : Keyed { s with packets := packets } := fun op hop => h op (hperm.mem_iff.2 (List.mem_cons_of_mem _ hop))
  have hpacket : ∀ p ∈ packet.op.key, Registered s.clients p := h packet.op (hperm.mem_iff.2 List.mem_cons_self)
  rcases handlePacket_ret hret with ⟨ls, as, hop, hret⟩ | ⟨p, c, hkey, hcloses, hc, rfl⟩ |
    ⟨p, sock, t, k, b, hop, -, hsends, hrecv⟩ | ⟨p, sock, c, hop, -, hsends⟩
  · have hu := hh.unclaimed (hop ▸ hperm)
    rcases onAcceptComplete_cases hrest hu hret with hclosed | ⟨t, k, b, hconnected, hcreate⟩
    · refine hkeyed.closed hclosed (fun q hq => absurd rfl (hu.ne hq)) fun op hop hkey => ?_
      exact absurd (hrest.key op hop _ hkey) (Nat.lt_irrefl _)
    · exact createAcceptSocket_keyed (hkeyed.connect hu hconnected) hcreate
  · obtain ⟨sock, hsock, hclosed⟩ := hrest.erase_closed hc
    refine hkeyed.closed hclosed (fun q hq => Option.some.inj (hq.symm.trans hsock)) fun op hop => ?_
    rw [← hkey]
    refine hok packet (by rw [hp]; rfl) hcloses op ?_
    rw [hp]
    exact hop
  · refine (hkeyed.sends hsends fun _ hq => hq).postRecv ?_ hrecv
    rw [hsends.clients]
    exact hpacket p (by rw [hop]; rfl)
  · refine hkeyed.sends hsends ?_
    rintro q rfl
    exact hpacket q (by rw [hop]; rfl)

theorem owned_of_reach (h : server.Reach ClosesAlone s) : Owned s := by
  have hkeyed : Keyed s := by
    refine h.invariant Keyed (fun _ hi => keyed_init hi) fun s x s' hr hs hok hst => ?_
    exact keyed_step (homed_of_reach (hr.mono fun _ _ _ => trivial)) hs hok hst
  exact (homed_of_reach (h.mono fun _ _ _ => trivial)).owned hkeyed

/-- **The keys of the outstanding operations are sessions of the registry**, in a run in which a session is closed
only when no other operation of it is outstanding.  So the handler of a packet finds its session. -/
theorem keys_owned (h : server.Reach ClosesAlone s) (hop : op ∈ s.outstanding) (hkey : op.key = some p) :
    ∃ sock c, s.clients.lookup sock = some p ∧ s.heap p = some c ∧ c.socket = some sock := by
  have howned := owned_of_reach h
  obtain ⟨sock, hp⟩ := howned.key op hop p hkey
  obtain ⟨-, c, hc, hsock⟩ := howned.client sock p hp
  exact ⟨sock, c, hp, hc, hsock⟩

/-- A session that is closed while another operation of it is outstanding leaves its address behind. -/
theorem dangling {packet : Packet} {packets : List Packet} {answers : List Answer} (h : server.Reach ClosesAlone s)
    (hst : s.step (.dequeue answers) = some s') (hp : s.packets = packet :: packets) (hcloses : packet.Closes)
    (hop : op ∈ s.pending.map Pending.op ++ packets.map Packet.op) (hkey : op.key = some p)
    (hpkey : packet.op.key = some p) : (∃ op ∈ s'.outstanding, op.key = some p) ∧ s'.heap p = none := by
  have hhomed := homed_of_reach (h.mono fun _ _ _ => trivial)
  have hperm := Server.outstanding_dequeue hp
  obtain ⟨k, ok, data, o, hx, -⟩ | ⟨answers', packet', packets', l', hx, hp', hret⟩ := Server.step_cases hst
  · cases hx
  obtain ⟨rfl, rfl⟩ := List.cons.inj (hp.symm.trans hp')
  rw [handlePacket_closes hcloses hpkey] at hret
  have hrest : Homed { s with packets := packets } := hhomed.rest [packet.op] hperm
  obtain ⟨c, hc, rfl⟩ := closeSession_ret hret
  obtain ⟨sock, -, hclosed⟩ := hrest.erase_closed hc
  refine ⟨⟨op, ?_, hkey⟩, ?_⟩
  · rw [hclosed.outstanding]
    exact hop
  · rw [hclosed.heap, Function.update_self]

/-- The first client disconnects after the byte has been sent to it: what is outstanding belongs to the other one. -/
theorem keys_owned_disconnect :
    (server.run twoListening
        (sendByte ++ [Input.complete 1 true [], Input.dequeue [], Input.complete 0 true [], Input.dequeue []])).map
      (fun s => (s.outstanding, s.clients.keys, s.heap 0)) = some ([.recv 1 2], [2], none) ∧
    ∀ s ∈ server.run twoListening
        (sendByte ++ [Input.complete 1 true [], Input.dequeue [], Input.complete 0 true [], Input.dequeue []]),
      Op.recv 1 2 ∈ s.outstanding →
        ∃ sock c, s.clients.lookup sock = some 1 ∧ s.heap 1 = some c ∧ c.socket = some sock := by
  refine ⟨by decide +kernel, fun s hs hop => ?_⟩
  have hinit : server.Reach ClosesAlone twoListening := .init twoListening_init
  exact keys_owned (hinit.run_along hs (by decide +kernel)) hop rfl

/-- The first client disconnects while the byte is being sent to it: the send has an erased session as its key. -/
theorem dangling_send :
    ¬ ∀ s, server.Reachable s → ∀ op ∈ s.outstanding, ∀ p, op.key = some p → ∃ sock, s.clients.lookup sock = some p := by
  intro hall
  have hrun : (server.run twoListening (sendByte ++ [Input.complete 0 true [], Input.dequeue []])).map
      (fun s => (s.outstanding, s.clients.entries.map (·.2))) = some ([.send 0 1, .recv 1 2], [1]) := by
    decide +kernel
  obtain ⟨s, hs, hv⟩ := Option.map_eq_some_iff.1 hrun
  simp only [Prod.mk.injEq] at hv
  obtain ⟨hout, hregistry⟩ := hv
  obtain ⟨sock, hsock⟩ := hall s (System.reachable_of_run twoListening_init hs) (.send 0 1) (by simp [hout]) 0 rfl
  have hmem : 0 ∈ s.clients.entries.map (·.2) := List.mem_map_of_mem (f := (·.2)) (AList.mem_lookup_iff.1 hsock)
  rw [hregistry] at hmem
  exact absurd hmem (by decide)

end TcpChat.Iocp
