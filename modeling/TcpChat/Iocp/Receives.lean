import TcpChat.Iocp.Sessions

/-!
# The pending receives

`OnAcceptComplete` drops a session whose first receive cannot be posted.  `OnRecvComplete` posts the next one without
looking at the result, and so a session whose receive is refused then stays registered and is never read again.

* `Server.reads` — the receives of a session that have not been handled;
* `reads_one` — every registered session has exactly one, if `OnRecvComplete` can always post the next one;
* `unread_of_refused` — otherwise the session is registered and has none.
-/

namespace TcpChat.Iocp

open TcpChat.Lib

/-- The operation is a `WSARecv` of the session. -/
def Op.isRecv (p : Ptr) : Op → Bool
  | recv key _ => key = p
  | _ => false

/-- The number of receives of the session that have been started and whose completion has not been handled. -/
def Server.reads (s : Server) (p : Ptr) : ℕ := s.outstanding.countP (Op.isRecv p)

/-- The answer of a `WSARecv`. -/
def Answer.wsaRecv? : Answer → Option Bool
  | wsaRecv ok => some ok
  | _ => none

/-- The packet is a receive after which the session goes on. -/
def Packet.Received (packet : Packet) : Prop := ¬ packet.Closes ∧ ∃ p ∈ packet.op.key, packet.op.isRecv p

/-- The `WSARecv` with which `OnRecvComplete` goes on is not refused. -/
def Rereads (s : Server) : Input → Prop
  | .complete _ _ _ => True
  | .dequeue answers => ∀ packet ∈ s.packets.head?, packet.Received → answers.findSome? Answer.wsaRecv? ≠ some false

instance : DecidablePred Packet.Received := fun packet =>
  inferInstanceAs (Decidable (_ ∧ ∃ p ∈ packet.op.key, _))

instance (s : Server) : DecidablePred (Rereads s)
  | .complete _ _ _ => isTrue trivial
  | .dequeue _ => inferInstanceAs (Decidable (∀ packet ∈ s.packets.head?, _))

/-- Every registered session is read. -/
def Read (s : Server) : Prop := ∀ p, Registered s.clients p → s.reads p = 1

variable {s s' t : Server} {op : Op} {p q : Ptr} {sock as ls : Socket} {l l' k : List Answer} {b : Bool} {x : Input}

/-! ## Counting -/

theorem reads_perm (h : s.outstanding.Perm (op :: s'.outstanding)) :
    s.reads p = s'.reads p + if op.isRecv p then 1 else 0 := by
  rw [Server.reads, h.countP_eq, List.countP_cons]
  rfl

theorem reads_congr (h : s'.outstanding = s.outstanding) : s'.reads p = s.reads p := by
  rw [Server.reads, h, Server.reads]

theorem Sends.reads {P : Ptr → Prop} (h : Sends P s l s' l') : s'.reads p = s.reads p := by
  obtain ⟨ops, hops, hsend⟩ := h.outstanding
  have hzero : ops.countP (Op.isRecv p) = 0 := by
    refine List.countP_eq_zero.2 fun op hop => ?_
    obtain ⟨p, sock, rfl, -⟩ := hsend op hop
    simp [Op.isRecv]
  rw [Server.reads, hops.countP_eq, List.countP_append, hzero, Nat.zero_add, Server.reads]

/-- A session that does not exist yet has no receives. -/
theorem Homed.reads_count (h : Homed s) : s.reads s.count = 0 := by
  refine List.countP_eq_zero.2 fun op hop hrecv => ?_
  cases op with
  | accept | send => simp [Op.isRecv] at hrecv
  | recv key sock =>
    simp only [Op.isRecv, decide_eq_true_eq] at hrecv
    exact absurd (h.key _ hop s.count (by rw [← hrecv]; rfl)) (Nat.lt_irrefl _)

/-- The sends before the receive do not take its answer. -/
theorem Sends.findSome {P : Ptr → Prop} (h : Sends P s l s' l') :
    l.findSome? Answer.wsaRecv? = l'.findSome? Answer.wsaRecv? := by
  obtain ⟨ks, rfl, hsend⟩ := h.answers
  have hnone : ks.findSome? Answer.wsaRecv? = none := by
    refine List.findSome?_eq_none_iff.2 fun a ha => ?_
    obtain ⟨ok, rfl⟩ := hsend a ha
    rfl
  rw [List.findSome?_append, hnone, Option.none_or]

/-! ## Handlers -/

theorem createAcceptSocket_read (h : Read s) (hret : createAcceptSocket ls s l = .ret b s' l') : Read s' := by
  rcases createAcceptSocket_ret hret with ⟨a, -, -, rfl⟩ | ⟨-, rfl⟩
  · intro p hp
    rw [← h p hp]
    exact reads_perm (Server.outstanding_start _ _)
  · exact h

theorem Read.connect (h : Read s) (hh : Homed s) (hc : Connected s s' as) : Read s' := by
  rintro p ⟨sock, hp⟩
  rw [hc.clients] at hp
  rw [Server.reads, hc.outstanding.countP_eq, List.countP_cons, ← Server.reads]
  split at hp
  next =>
    obtain rfl : s.count = p := Option.some.inj hp
    rw [hh.reads_count]
    simp [Op.isRecv]
  next =>
    have hne : s.count ≠ p := (Nat.ne_of_lt (hh.registered_live ⟨sock, hp⟩)).symm
    rw [h p ⟨sock, hp⟩]
    simp [Op.isRecv, hne]

/-- The other sessions are read, and the one that has just received will be. -/
theorem postRecv_read (h : ∀ q, q ≠ p → Registered s.clients q → s.reads q = 1) (hzero : s.reads p = 0)
    (hl : l.findSome? Answer.wsaRecv? ≠ some false) (hret : postRecv p s l = .ret b s' l') : Read s' := by
  obtain ⟨c, -, ⟨-, -, sock, -, rfl⟩ | ⟨-, rfl, -⟩⟩ := postRecv_ret hret
  · intro q hq
    rw [reads_perm (s.outstanding_start (.recv p sock))]
    by_cases hqp : q = p
    · subst hqp
      rw [show Server.reads _ q = 0 from hzero]
      simp [Op.isRecv]
    · rw [h q hqp hq]
      simp [Op.isRecv, Ne.symm hqp]
  · exact absurd rfl hl

/-! ## Runs -/

theorem read_init (h : server.init s) : Read s := by
  refine of_init (fun _ => ?_) (fun _ _ _ _ _ _ h hret => createAcceptSocket_read h hret) h
  rintro p ⟨sock, hp⟩
  cases hp

theorem read_step (hh : Homed s) (h : Read s) (hok : Rereads s x) (hst : s.step x = some s') : Read s' := by
  rcases Server.step_cases hst with ⟨k, ok, data, o, rfl, ho, -, rfl⟩ | ⟨answers, packet, packets, l', rfl, hp, hret⟩
  · intro p hp
    rw [← h p hp]
    exact (Server.outstanding_complete ho ok data).countP_eq _
  have hperm := Server.outstanding_dequeue hp
  have hrest : Homed { s with packets := packets } := hh.rest [packet.op] hperm
  -- the receive that is handled belongs to `q`
  have hothers : ∀ q, packet.op.isRecv q = false → Registered s.clients q →
      Server.reads { s with packets := packets } q = 1 := by
    intro q hq hreg
    have hone := h q hreg
    rwa [reads_perm hperm, hq, if_neg (by simp), Nat.add_zero] at hone
  rcases handlePacket_ret hret with ⟨ls, as, hop, hret⟩ | ⟨q, c, hkey, -, hc, rfl⟩ |
    ⟨q, sock, t, k, b, hop, hcloses, hsends, hrecv⟩ | ⟨q, sock, c, hop, -, hsends⟩
  · have hread : Read { s with packets := packets } := fun q hq => hothers q (by rw [hop]; rfl) hq
    have hu := hh.unclaimed (hop ▸ hperm)
    rcases onAcceptComplete_cases hrest hu hret with hclosed | ⟨t, k, b, hconnected, hcreate⟩
    · rintro q ⟨sock, hq⟩
      rw [reads_congr hclosed.outstanding]
      exact hread q ⟨sock, ((hclosed.clients sock q).1 hq).2⟩
    · exact createAcceptSocket_read (hread.connect hrest hconnected) hcreate
  · obtain ⟨sock, hsock, hclosed⟩ := hrest.erase_closed hc
    rintro r ⟨sock', hr⟩
    obtain ⟨hne, hreg⟩ := (hclosed.clients sock' r).1 hr
    rw [reads_congr hclosed.outstanding]
    refine hothers r ?_ ⟨sock', hreg⟩
    have hrq : r ≠ q := by
      rintro rfl
      exact hne (hrest.socket_unique hsock hreg)
    cases hpacket : packet.op with
    | accept | send => rfl
    | recv key sock'' =>
      rw [hpacket] at hkey
      obtain rfl : key = q := Option.some.inj hkey
      simp [Op.isRecv, Ne.symm hrq]
  · have hreceived : packet.Received := ⟨hcloses, q, by rw [hop]; rfl, by simp [hop, Op.isRecv]⟩
    have hl := hok packet (by rw [hp]; rfl) hreceived
    rw [hsends.findSome] at hl
    refine postRecv_read (fun r hr hreg => ?_) ?_ hl hrecv
    · rw [hsends.reads]
      rw [hsends.clients] at hreg
      exact hothers r (by simp [hop, Op.isRecv, Ne.symm hr]) hreg
    · obtain ⟨c, hc, -⟩ := postRecv_ret hrecv
      obtain ⟨c', hc', -⟩ := hsends.heap_back hc
      have hone := h q (hrest.live q c' hc').2
      rw [reads_perm hperm, hop] at hone
      rw [hsends.reads]
      simpa [Op.isRecv] using hone
  · intro r hr
    rw [hsends.reads]
    rw [hsends.clients] at hr
    exact hothers r (by rw [hop]; rfl) hr

theorem read_of_reach (h : server.Reach Rereads s) : Read s := by
  refine h.invariant Read (fun _ hi => read_init hi) fun s x s' hr hs hok hst => ?_
  exact read_step (homed_of_reach (hr.mono fun _ _ _ => trivial)) hs hok hst

/-- A session whose receive is refused stays registered, and is not read any more. -/
theorem unread_of_refused {packet : Packet} {packets : List Packet} {answers : List Answer} (h : server.Reach Rereads s)
    (hst : s.step (.dequeue answers) = some s') (hp : s.packets = packet :: packets) (hreceived : packet.Received)
    (hkey : packet.op.key = some p) (hl : answers.findSome? Answer.wsaRecv? = some false) :
    Registered s'.clients p ∧ s'.reads p = 0 := by
  have hhomed := homed_of_reach (h.mono fun _ _ _ => trivial)
  have hperm := Server.outstanding_dequeue hp
  have hrest : Homed { s with packets := packets } := hhomed.rest [packet.op] hperm
  obtain ⟨hcloses, q, hq, hrecv⟩ := hreceived
  obtain rfl : p = q := Option.some.inj (hkey.symm.trans hq)
  obtain ⟨k, ok, data, o, hx, -⟩ | ⟨answers', packet', packets', l', hx, hp', hret⟩ := Server.step_cases hst
  · cases hx
  cases hx
  obtain ⟨rfl, rfl⟩ := List.cons.inj (hp.symm.trans hp')
  rcases handlePacket_ret hret with ⟨ls, as, hop, -⟩ | ⟨q, c, -, hno, -, -⟩ |
    ⟨q, sock, t, k, b, hop, -, hsends, hret⟩ | ⟨q, sock, c, hop, -, -⟩
  · simp [hop, Op.isRecv] at hrecv
  · exact absurd hno hcloses
  · obtain rfl : q = p := by simpa [hop, Op.isRecv] using hrecv
    rw [hsends.findSome] at hl
    obtain ⟨c, hc, ⟨-, rfl, -⟩ | ⟨-, rfl, rfl⟩⟩ := postRecv_ret hret
    · cases hl
    obtain ⟨c', hc', -⟩ := hsends.heap_back hc
    have hreg : Registered s.clients q := (hrest.live q c' hc').2
    refine ⟨by rw [hsends.clients]; exact hreg, ?_⟩
    have hone := read_of_reach h q hreg
    rw [reads_perm hperm, if_pos hrecv] at hone
    rw [hsends.reads]
    exact Nat.succ.inj hone
  · simp [hop, Op.isRecv] at hrecv

end TcpChat.Iocp
