import TcpChat.Iocp.Server

/-!
# The order of the completion port server's sends

A session queues what is broadcast to it and has at most one `WSASend` outstanding, for the first message of the
queue.  `OnSendComplete` takes this message off the queue, but then calls `PostSend` with the next one, which is
queued a second time.  As long as no message waits behind the one that is sent, every message is handed to `WSASend`
once and in order.

* `Ordered` — the queue, the flag and the outstanding sends of a session agree;
* `handed_prefix` — this holds in every run in which nothing waits;
* `handed_twice` — a message that waits is sent again and again.
-/

namespace TcpChat.Iocp

open TcpChat.Lib

/-- The operation is a `WSASend` of the session. -/
def Op.isSend (p : Ptr) : Op → Bool
  | send key _ => key = p
  | _ => false

/-- The number of outstanding sends of the session. -/
def Server.sends (s : Server) (p : Ptr) : ℕ := s.outstanding.countP (Op.isSend p)

/-! ## The invariant -/

/-- What is broadcast has been handed to `WSASend` or waits in the queue, and the queue starts with the message of the
one outstanding send. -/
structure InOrder (c : ClientSession) (n : ℕ) : Prop where
  posted : c.posted = c.handed ++ c.sendQueue.tail
  inFlight : c.sendInFlight = true → n = 1 ∧ c.sendQueue ≠ []
  idle : c.sendInFlight = false → n = 0 ∧ c.sendQueue = []

structure Ordered (s : Server) : Prop where
  live : ∀ p c, s.heap p = some c → p < s.count
  key : ∀ op ∈ s.outstanding, ∀ p ∈ op.key, p < s.count
  session : ∀ p c, s.heap p = some c → InOrder c (s.sends p)

variable {s s' : Server} {op : Op} {p q : Ptr} {sock : Socket} {c d : ClientSession} {l l' : List Answer}
  {msg : List UInt8} {b : Bool}

/-- Sessions may be destroyed, and their sockets closed. -/
theorem Ordered.of_heap (h : Ordered s) (hops : s'.outstanding = s.outstanding) (hcount : s'.count = s.count)
    (hheap : ∀ q d, s'.heap q = some d → s.heap q = some d ∨ ∃ c, s.heap q = some c ∧ d = { c with socket := none }) :
    Ordered s' := by
  refine ⟨fun q d hd => ?_, fun op hop q hq => ?_, fun q d hd => ?_⟩
  · rw [hcount]
    rcases hheap q d hd with hd | ⟨c, hc, -⟩
    · exact h.live q d hd
    · exact h.live q c hc
  · rw [hcount]
    exact h.key op (hops ▸ hop) q hq
  · rw [Server.sends, hops]
    rcases hheap q d hd with hd | ⟨c, hc, rfl⟩
    · exact h.session q d hd
    · obtain ⟨hposted, hflight, hidle⟩ := h.session q c hc
      exact ⟨hposted, hflight, hidle⟩

theorem Ordered.closesocket (h : Ordered s) (sock : Socket) : Ordered (s.closesocket sock) :=
  h.of_heap (s.outstanding_closesocket sock) rfl fun _ _ hd => .inl hd

theorem Ordered.stop (h : Ordered s) (p : Ptr) : Ordered (s.stop p) := by
  refine h.of_heap (s.outstanding_stop p) (s.count_stop p) fun q d hd => ?_
  rw [s.heap_stop] at hd
  by_cases hq : q = p
  · subst hq
    rw [Function.update_self, Option.map_eq_some_iff] at hd
    obtain ⟨c, hc, rfl⟩ := hd
    exact .inr ⟨c, hc, rfl⟩
  · rw [Function.update_of_ne hq] at hd
    exact .inl hd

theorem Ordered.destroy (h : Ordered s) (p : Ptr) : Ordered (s.destroy p) := by
  refine h.of_heap (s.outstanding_destroy p) (s.count_destroy p) fun q d hd => .inl ?_
  rw [s.heap_destroy] at hd
  by_cases hq : q = p
  · rw [hq, Function.update_self] at hd
    cases hd
  · rwa [Function.update_of_ne hq] at hd

theorem Ordered.erase (h : Ordered s) (sock : Option Socket) : Ordered (s.erase sock) := by
  unfold Server.erase
  split
  · exact h
  · split
    · exact h
    next p _ =>
      obtain ⟨hlive, hkey, hsession⟩ := h.destroy p
      exact ⟨hlive, hkey, hsession⟩

theorem Ordered.emplace (h : Ordered s) (sock : Socket) (p : Ptr) : Ordered (s.emplace sock p) := by
  unfold Server.emplace
  split
  · exact h.destroy p
  · exact ⟨h.live, h.key, h.session⟩

/-! ## The operations that start and end -/

theorem sends_start : (s.start op).sends q = s.sends q + if op.isSend q then 1 else 0 := by
  rw [Server.sends, (s.outstanding_start op).countP_eq, List.countP_cons, Server.sends]

/-- An operation that is no send changes nothing for the sessions. -/
theorem Ordered.start (h : Ordered s) (hop : ∀ q, op.isSend q = false) (hkey : ∀ q ∈ op.key, q < s.count) :
    Ordered (s.start op) := by
  refine ⟨h.live, fun o ho => ?_, fun q c hc => ?_⟩
  · rcases List.mem_cons.1 ((s.outstanding_start op).mem_iff.1 ho) with rfl | ho
    · exact hkey
    · exact h.key o ho
  · rw [sends_start, hop]
    exact h.session q c hc

/-- Between `s` and `t` only the sends of the session `p` change, and the session changes with them. -/
theorem Ordered.modify {t : Server} {f : ClientSession → ClientSession} (h : Ordered s) (hheap : t.heap = s.heap)
    (hcount : t.count = s.count) (hkey : ∀ op ∈ t.outstanding, op ∈ s.outstanding ∨ op.key = some p)
    (hsends : ∀ q, q ≠ p → t.sends q = s.sends q) (hc : s.heap p = some c) (hf : InOrder (f c) (t.sends p)) :
    Ordered (t.modify p f) := by
  have hother : ∀ q d, (t.modify p f).heap q = some d → q = p ∧ d = f c ∨ q ≠ p ∧ s.heap q = some d := by
    intro q d hd
    by_cases hq : q = p
    · subst hq
      simp only [Server.modify, hheap, hc, Function.update_self, Option.map_some, Option.some.injEq] at hd
      exact .inl ⟨rfl, hd.symm⟩
    · simp only [Server.modify, Function.update_of_ne hq, hheap] at hd
      exact .inr ⟨hq, hd⟩
  refine ⟨fun q d hd => ?_, fun op hop q hq => ?_, fun q d hd => ?_⟩
  · rcases hother q d hd with ⟨rfl, -⟩ | ⟨-, hd⟩
    · exact hcount ▸ h.live q c hc
    · exact hcount ▸ h.live q d hd
  · rcases hkey op hop with hop | hp
    · exact hcount ▸ h.key op hop q hq
    · obtain rfl : p = q := Option.some.inj (hp.symm.trans hq)
      exact hcount ▸ h.live p c hc
  · rcases hother q d hd with ⟨rfl, rfl⟩ | ⟨hq, hd⟩
    · exact hf
    · change InOrder d (t.sends q)
      rw [hsends q hq]
      exact h.session q d hd

/-- The body of the broadcast: what goes into the queue behind a send in flight, and what is sent at once. -/
theorem broadcastTo_ordered {sender : Ptr} {u : Unit} (h : Ordered s) (hl : .wsaSend false ∉ l)
    (hret : broadcastTo msg sender p s l = .ret u s' l') : Ordered s' ∧ .wsaSend false ∉ l' := by
  unfold broadcastTo at hret
  split at hret
  · obtain ⟨-, rfl, rfl⟩ := Prog.pure_ret.1 hret
    exact ⟨h, hl⟩
  obtain ⟨v, t, k, hmod, hret⟩ := Prog.bind_ret.1 hret
  obtain ⟨rfl, rfl⟩ := Prog.modify_ret.1 hmod
  obtain ⟨b, t, k, hsend, hret⟩ := Prog.bind_ret.1 hret
  obtain ⟨-, rfl, rfl⟩ := Prog.pure_ret.1 hret
  obtain ⟨d, hd, hcases⟩ := postSend_ret hsend
  simp only [Server.modify, Function.update_self, Option.map_eq_some_iff] at hd
  obtain ⟨c, hc, rfl⟩ := hd
  obtain ⟨hposted, hflight, hidle⟩ := h.session p c hc
  rcases hcases with ⟨hmsg, rfl, rfl⟩ | ⟨hmsg, hin, rfl, rfl⟩ | ⟨hmsg, hin, rfl, ⟨sock, -, rfl⟩⟩ | ⟨-, -, rfl, -⟩
  · refine ⟨h.modify rfl rfl (fun _ => .inl) (fun _ _ => rfl) hc ?_, hl⟩
    rw [if_pos hmsg]
    exact ⟨hposted, hflight, hidle⟩
  · rw [Server.modify_modify]
    refine ⟨h.modify rfl rfl (fun _ => .inl) (fun _ _ => rfl) hc ⟨?_, ?_, ?_⟩, hl⟩
    · have htail : (c.sendQueue ++ [msg]).tail = c.sendQueue.tail ++ [msg] :=
        List.tail_append_of_ne_nil (hflight hin).2
      simp only [Function.comp_apply, if_neg hmsg, htail, hposted, List.append_assoc]
    · intro _
      exact ⟨(hflight hin).1, by simp⟩
    · intro hidle'
      exact absurd (hin.symm.trans hidle') (by decide)
  · obtain ⟨hnone, hempty⟩ := hidle hin
    rw [Server.modify_start, Server.modify_modify]
    refine ⟨h.modify rfl rfl (fun o ho => ?_) (fun q hq => ?_) hc ⟨?_, fun _ => ⟨?_, ?_⟩, ?_⟩, ?_⟩
    · rcases List.mem_cons.1 ((s.outstanding_start _).mem_iff.1 ho) with rfl | ho
      · exact .inr rfl
      · exact .inl ho
    · rw [sends_start, Op.isSend, decide_eq_false (Ne.symm hq)]
      rfl
    · simp [if_neg hmsg, hempty, hposted]
    · rw [sends_start, Op.isSend, decide_eq_true rfl, hnone]
      rfl
    · simp
    · intro hfalse
      cases hfalse
    · exact fun hmem => hl (List.mem_cons_of_mem _ hmem)
  · exact absurd List.mem_cons_self hl

/-! ## The handlers -/

/-- The assertions: the invariant, and no `WSASend` will be refused. -/
def Accepted (I : Server → Prop) (s : Server) (l : List Answer) : Prop := I s ∧ .wsaSend false ∉ l

theorem postRecv_ordered : Prog.Triple (Accepted Ordered) (postRecv p) fun _ => Accepted Ordered := by
  rintro s l b s' l' ⟨h, hl⟩ hret
  obtain ⟨c, hc, hcases⟩ := postRecv_ret hret
  rcases hcases with ⟨-, rfl, sock, -, rfl⟩ | ⟨-, rfl, rfl⟩
  · refine ⟨h.start (fun _ => rfl) ?_, fun hmem => hl (List.mem_cons_of_mem _ hmem)⟩
    intro q hq
    obtain rfl : p = q := Option.some.inj hq
    exact h.live p c hc
  · exact ⟨h, fun hmem => hl (List.mem_cons_of_mem _ hmem)⟩

theorem broadcastMsg_ordered {sender : Ptr} :
    Prog.Triple (Accepted Ordered) (broadcastMsg msg sender) fun _ => Accepted Ordered := by
  intro s l u s' l' h hret
  obtain ⟨t, t', k, hget, hret⟩ := Prog.bind_ret.1 hret
  obtain ⟨rfl, rfl, rfl⟩ := Prog.get_ret.1 hget
  refine Prog.triple_each (fun p _ => ?_) s l u s' l' h hret
  rintro s l u s' l' ⟨h, hl⟩ hret
  exact broadcastTo_ordered h hl hret

theorem createAcceptSocket_ordered {ls : Socket} (h : Ordered s) (hret : createAcceptSocket ls s l = .ret b s' l') :
    Ordered s' ∧ l' ⊆ l := by
  rcases createAcceptSocket_ret hret with ⟨a, rfl, -, rfl⟩ | ⟨rfl, rfl⟩
  · have hopen : Ordered { s with opened := Function.update s.opened a true } := ⟨h.live, h.key, h.session⟩
    exact ⟨hopen.start (fun _ => rfl) nofun, List.subset_cons_self ..⟩
  · exact ⟨h, List.subset_cons_self ..⟩

theorem makeSession_ordered {as : Socket} :
    Prog.Triple (Accepted Ordered) (makeSession as) fun _ => Accepted Ordered := by
  rintro s l p s' l' ⟨h, hl⟩ hret
  cases hret
  have hnone : s.sends s.count = 0 := by
    refine List.countP_eq_zero.2 fun op hop hsend => ?_
    cases op with
    | send key _ =>
      exact absurd (of_decide_eq_true hsend) (Nat.ne_of_lt (h.key _ hop key rfl))
    | _ => cases hsend
  refine ⟨⟨fun q d hd => ?_, fun op hop q hq => ?_, fun q d hd => ?_⟩, hl⟩
  · by_cases hq : q = s.count
    · exact hq ▸ Nat.lt_succ_self _
    · simp only [Function.update_of_ne hq] at hd
      exact Nat.lt_succ_of_lt (h.live q d hd)
  · exact Nat.lt_succ_of_lt (h.key op hop q hq)
  · by_cases hq : q = s.count
    · subst hq
      simp only [Function.update_self, Option.some.injEq] at hd
      subst hd
      exact ⟨rfl, nofun, fun _ => ⟨hnone, rfl⟩⟩
    · simp only [Function.update_of_ne hq] at hd
      exact h.session q d hd

theorem modify_ordered {g : Server → Server} (hg : ∀ s, Ordered s → Ordered (g s)) :
    Prog.Triple (Accepted Ordered) (Prog.modify g) fun _ => Accepted Ordered :=
  Prog.triple_modify fun s _ h => ⟨hg s h.1, h.2⟩

theorem onAcceptComplete_ordered {ls as : Socket} {ok : Bool} :
    Prog.Triple (Accepted Ordered) (onAcceptComplete ls as ok) fun _ => Accepted Ordered := by
  unfold onAcceptComplete
  split
  · exact modify_ordered fun s h => h.closesocket as
  refine makeSession_ordered.bind fun sess => ?_
  have hassociate : Prog.Triple (Accepted Ordered) associateHandle fun _ => Accepted Ordered := by
    rintro s l b s' l' ⟨h, hl⟩ hret
    obtain ⟨rfl, rfl⟩ := associateHandle_ret hret
    exact ⟨h, fun hmem => hl (List.mem_cons_of_mem _ hmem)⟩
  refine hassociate.bind fun associated => ?_
  have hrecv : Prog.Triple (Accepted Ordered) (if associated then postRecv sess else pure false)
      fun _ => Accepted Ordered := by
    split
    · exact postRecv_ordered
    · exact Prog.triple_pure fun _ _ h => h
  refine hrecv.bind fun posted => ?_
  split
  · refine (modify_ordered fun s h => h.emplace as sess).bind fun _ => ?_
    have hcreate : Prog.Triple (Accepted Ordered) (createAcceptSocket ls) fun _ => Accepted Ordered :=
      fun s l b s' l' h hret => (createAcceptSocket_ordered h.1 hret).imp_right fun hsub hmem => h.2 (hsub hmem)
    exact hcreate.bind fun _ => Prog.triple_pure fun _ _ h => h
  · exact (modify_ordered fun s h => h.stop sess).bind fun _ => modify_ordered fun s h => h.destroy sess

theorem closeSession_ordered : Prog.Triple (Accepted Ordered) (closeSession p) fun _ => Accepted Ordered := by
  have hderef : Prog.Triple (Accepted Ordered) (deref p) fun _ => Accepted Ordered := by
    intro s l c s' l' h hret
    obtain ⟨-, rfl, rfl⟩ := deref_ret.1 hret
    exact h
  refine hderef.bind fun c => ?_
  exact (modify_ordered fun s h => h.stop p).bind fun _ => modify_ordered fun s h => h.erase c.socket

theorem onRecvComplete_ordered {data : List UInt8} {ok : Bool} :
    Prog.Triple (Accepted Ordered) (onRecvComplete p data ok) fun _ => Accepted Ordered := by
  unfold onRecvComplete
  split
  · exact closeSession_ordered
  intro s l u s' l' h hret
  obtain ⟨c, t, k, hderef, hret⟩ := Prog.bind_ret.1 hret
  obtain ⟨-, rfl, rfl⟩ := deref_ret.1 hderef
  have hrest : Prog.Triple (Accepted Ordered) (do
      broadcastMsg data p
      let _ ← postRecv p) fun _ => Accepted Ordered :=
    broadcastMsg_ordered.bind fun _ => postRecv_ordered.bind fun _ => Prog.triple_pure fun _ _ h => h
  exact hrest s l u s' l' h hret

/-- `OnSendComplete`, after the packet of the operation has been taken from `s`. -/
theorem onSendComplete_ordered {t : Server} {u : Unit} (h : Ordered s) (hheap : t.heap = s.heap)
    (hcount : t.count = s.count) (hout : s.outstanding.Perm (.send p sock :: t.outstanding))
    (hempty : ∀ c, s.heap p = some c → c.sendQueue.length ≤ 1)
    (hret : onSendComplete p true t l = .ret u s' l') : Ordered s' := by
  have hsends : ∀ q, s.sends q = t.sends q + if Op.isSend q (.send p sock) then 1 else 0 := fun q => by
    rw [Server.sends, hout.countP_eq, List.countP_cons, Server.sends]
  obtain ⟨c, t', k, hderef, hret⟩ := Prog.bind_ret.1 hret
  obtain ⟨hc, rfl, rfl⟩ := deref_ret.1 hderef
  rw [hheap] at hc
  have hlen := hempty c hc
  obtain ⟨hposted, hflight, hidle⟩ := h.session p c hc
  have hone := hsends p
  rw [Op.isSend, decide_eq_true rfl, if_pos rfl] at hone
  have hin : c.sendInFlight = true := by
    by_contra hin
    have := (hidle (by simpa using hin)).1
    omega
  have hzero : t.sends p = 0 := by
    have := (hflight hin).1
    omega
  have htail : c.sendQueue.tail = [] := List.eq_nil_of_length_eq_zero (by rw [List.length_tail]; omega)
  obtain ⟨v, t', k, hmod, hret⟩ := Prog.bind_ret.1 hret
  obtain ⟨rfl, rfl⟩ := Prog.modify_ret.1 hmod
  simp only [htail] at hret
  obtain ⟨-, rfl, rfl⟩ := Prog.pure_ret.1 hret
  refine h.modify hheap hcount (fun o ho => .inl (hout.mem_iff.2 (List.mem_cons_of_mem _ ho))) (fun q hq => ?_) hc
    ⟨?_, nofun, fun _ => ⟨hzero, htail⟩⟩
  · rw [hsends q, Op.isSend, decide_eq_false (Ne.symm hq)]
    rfl
  · simpa [htail] using hposted

/-! ## Runs -/

/-- No `WSASend` is refused, and each one that is handled was successful. -/
def SendsSucceed (s : Server) : Input → Prop
  | .complete _ _ _ => True
  | .dequeue answers => .wsaSend false ∉ answers ∧ ∀ packet ∈ s.packets.head?, (packet.op matches .send _ _) → packet.ok

/-- When `OnSendComplete` is called, no message waits behind the one that was sent. -/
def NothingWaits (s : Server) : Input → Prop
  | .complete _ _ _ => True
  | .dequeue _ => ∀ packet ∈ s.packets.head?, (packet.op matches .send _ _) →
      ∀ p ∈ packet.op.key, ∀ c ∈ s.heap p, c.sendQueue.length ≤ 1

instance (s : Server) : DecidablePred (SendsSucceed s)
  | .complete _ _ _ => isTrue trivial
  | .dequeue _ => inferInstanceAs (Decidable (_ ∧ _))

instance (s : Server) : DecidablePred (NothingWaits s)
  | .complete _ _ _ => isTrue trivial
  | .dequeue _ => inferInstanceAs (Decidable (∀ packet ∈ s.packets.head?, _))

theorem ordered_init (h : server.init s) : Ordered s :=
  of_init (fun _ => ⟨nofun, nofun, nofun⟩) (fun _ _ _ _ _ _ h hret => (createAcceptSocket_ordered h hret).1) h

theorem ordered_step {x : Input} (h : Ordered s) (hok : SendsSucceed s x) (hwait : NothingWaits s x)
    (hst : s.step x = some s') : Ordered s' := by
  rcases Server.step_cases hst with ⟨k, ok, data, o, rfl, ho, -, rfl⟩ | ⟨answers, packet, packets, l', rfl, hp, hret⟩
  · have hperm := Server.outstanding_complete ho ok data
    refine ⟨h.live, fun op hop => h.key op (hperm.mem_iff.1 hop), fun p c hc => ?_⟩
    rw [Server.sends, hperm.countP_eq]
    exact h.session p c hc
  · have hperm := Server.outstanding_dequeue hp
    obtain ⟨hl, hsuccess⟩ := hok
    rw [hp, List.head?_cons] at hsuccess
    have hrest : (∀ q, packet.op.isSend q = false) → Accepted Ordered { s with packets := packets } answers := by
      intro hno
      refine ⟨⟨h.live, fun op hop => h.key op (hperm.mem_iff.2 (List.mem_cons_of_mem _ hop)), fun p c hc => ?_⟩, hl⟩
      have hsession := h.session p c hc
      rw [Server.sends, hperm.countP_eq, List.countP_cons, hno] at hsession
      exact hsession
    cases hop : packet.op with
    | accept ls as =>
      simp only [handlePacket, hop] at hret
      exact (onAcceptComplete_ordered _ _ _ _ _ (hrest fun q => by rw [hop]; rfl) hret).1
    | recv key sock =>
      simp only [handlePacket, hop] at hret
      exact (onRecvComplete_ordered _ _ _ _ _ (hrest fun q => by rw [hop]; rfl) hret).1
    | send key sock =>
      simp only [handlePacket, hop] at hret
      have hpok : packet.ok = true := hsuccess packet rfl (by rw [hop])
      rw [hpok] at hret
      refine onSendComplete_ordered (t := { s with packets := packets }) h rfl rfl (hop ▸ hperm) (fun c hc => ?_) hret
      exact hwait packet (by rw [hp]; rfl) (by rw [hop]) key (by rw [hop]; rfl) c hc

/-- **Every session is sent what is broadcast to it, once and in order**, in a run in which no message waits behind
a send when it completes; when no send is outstanding, all of it has been sent. -/
theorem handed_prefix (h : server.Reach (fun s x => SendsSucceed s x ∧ NothingWaits s x) s) (hc : s.heap p = some c) :
    c.handed <+: c.posted ∧ (s.sends p = 0 → c.sendQueue = [] ∧ c.handed = c.posted) := by
  have hordered : Ordered s :=
    h.invariant Ordered (fun s hi => ordered_init hi) fun s x s' _ hs hok hst => ordered_step hs hok.1 hok.2 hst
  obtain ⟨hposted, hflight, hidle⟩ := hordered.session p c hc
  refine ⟨⟨_, hposted.symm⟩, fun hnone => ?_⟩
  have hin : c.sendInFlight = false := by
    by_contra hin
    have hone := (hflight (by simpa using hin)).1
    omega
  have hempty := (hidle hin).2
  rw [hempty, List.tail_nil, List.append_nil] at hposted
  exact ⟨hempty, hposted.symm⟩

/-- One byte is broadcast, and its send completes. -/
theorem handed_prefix_byte :
    (server.run twoListening (sendByte ++ [Input.complete 1 true [], Input.dequeue []])).map
      (fun s => (s.sends 0, (s.heap 0).map fun c => (c.posted, c.handed))) = some (0, some ([[65]], [[65]])) ∧
    ∀ s ∈ server.run twoListening (sendByte ++ [Input.complete 1 true [], Input.dequeue []]), ∀ c ∈ s.heap 0,
      c.handed <+: c.posted ∧ (s.sends 0 = 0 → c.sendQueue = [] ∧ c.handed = c.posted) := by
  refine ⟨by decide +kernel, fun s hs c hc => ?_⟩
  have hinit : server.Reach (fun s x => SendsSucceed s x ∧ NothingWaits s x) twoListening := .init twoListening_init
  exact handed_prefix (hinit.run_along hs (by decide +kernel)) hc

/-- A second byte waits behind the first: it is handed to `WSASend` twice. -/
theorem handed_twice :
    ¬ ∀ s, server.Reach SendsSucceed s → ∀ p c, s.heap p = some c →
      c.handed <+: c.posted ∧ (s.sends p = 0 → c.sendQueue = [] ∧ c.handed = c.posted) := by
  intro hall
  have hrun : (server.run twoListening (sendByte ++ [Input.complete 2 true [66], Input.dequeue [.wsaRecv true],
      Input.complete 1 true [], Input.dequeue [.wsaSend true], Input.complete 2 true [], Input.dequeue [.wsaSend true]])).map
      (fun s => (s.heap 0).map fun c => (c.posted, c.handed)) = some (some ([[65], [66]], [[65], [66], [66]])) := by
    decide +kernel
  obtain ⟨s, hs, hv⟩ := Option.map_eq_some_iff.1 hrun
  obtain ⟨c, hc, hv⟩ := Option.map_eq_some_iff.1 hv
  simp only [Prod.mk.injEq] at hv
  obtain ⟨hposted, hhanded⟩ := hv
  have hinit : server.Reach SendsSucceed twoListening := .init twoListening_init
  obtain ⟨hsent, -⟩ := hall s (hinit.run_along hs (by decide +kernel)) 0 c hc
  rw [hposted, hhanded] at hsent
  exact absurd hsent (by decide)

end TcpChat.Iocp
