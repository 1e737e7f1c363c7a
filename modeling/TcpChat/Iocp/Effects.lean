import TcpChat.Iocp.Server

/-!
# What the completion handlers do

One statement for each handler says all that it can do when it returns; the invariants are derived from these.

* `Sends` — messages were queued and sends were started, nothing else has changed;
* `Closed` — a session and its socket are gone;
* `handlePacket_ret`, `onAcceptComplete_ret` — the handlers.
-/

namespace TcpChat.Iocp

open TcpChat.Lib

variable {s s' t : Server} {op : Op} {p q : Ptr} {sock as ls : Socket} {c : ClientSession} {l l' k : List Answer}
  {msg : List UInt8} {b : Bool} {u : Unit} {P : Ptr → Prop}

/-- A registered session. -/
def Registered (m : Table Socket Ptr) (p : Ptr) : Prop := ∃ sock, m.lookup sock = some p

theorem mem_clients (h : s.clients.lookup sock = some p) : sock ∈ s.clients :=
  AList.lookup_isSome.1 (by rw [h]; rfl)

@[simp]
theorem Server.outstanding_erase (s : Server) (sock : Option Socket) : (s.erase sock).outstanding = s.outstanding := by
  cases sock with
  | none => rfl
  | some sock =>
    simp only [Server.erase]
    split
    · rfl
    next p _ => exact s.outstanding_destroy p

@[simp]
theorem Server.outstanding_emplace (s : Server) (sock : Socket) (p : Ptr) :
    (s.emplace sock p).outstanding = s.outstanding := by
  unfold Server.emplace
  split
  · exact s.outstanding_destroy p
  · rfl

/-! ## Sending -/

/-- Sends of the sessions `P` have been started, with the answers that `l` has before `l'`. -/
structure Sends (P : Ptr → Prop) (s : Server) (l : List Answer) (s' : Server) (l' : List Answer) : Prop where
  clients : s'.clients = s.clients
  count : s'.count = s.count
  opened : s'.opened = s.opened
  socket : ∀ p, (s'.heap p).map ClientSession.socket = (s.heap p).map ClientSession.socket
  outstanding : ∃ ops, s'.outstanding.Perm (ops ++ s.outstanding) ∧ ∀ op ∈ ops, ∃ p sock, op = .send p sock ∧ P p
  answers : ∃ ks, l = ks ++ l' ∧ ∀ a ∈ ks, ∃ ok, a = .wsaSend ok

theorem Sends.refl : Sends P s l s l :=
  ⟨rfl, rfl, rfl, fun _ => rfl, ⟨[], List.Perm.refl _, by simp⟩, [], rfl, by simp⟩

theorem Sends.trans (h : Sends P s l t k) (h' : Sends P t k s' l') : Sends P s l s' l' := by
  obtain ⟨ops, hops, hto⟩ := h.outstanding
  obtain ⟨ops', hops', hto'⟩ := h'.outstanding
  obtain ⟨ks, hks, hsend⟩ := h.answers
  obtain ⟨ks', hks', hsend'⟩ := h'.answers
  refine ⟨h'.clients.trans h.clients, h'.count.trans h.count, h'.opened.trans h.opened,
    fun p => (h'.socket p).trans (h.socket p), ⟨ops' ++ ops, ?_, ?_⟩, ks ++ ks', ?_, ?_⟩
  · rw [List.append_assoc]
    exact hops'.trans (hops.append_left ops')
  · intro op hop
    exact (List.mem_append.1 hop).elim (hto' op) (hto op)
  · rw [hks, hks', List.append_assoc]
  · intro a ha
    exact (List.mem_append.1 ha).elim (hsend a) (hsend' a)

/-- A change of the data of a session. -/
theorem Sends.modify {f : ClientSession → ClientSession} (h : Sends P s l t k) (hf : ∀ c, (f c).socket = c.socket) :
    Sends P s l (t.modify p f) k := by
  refine ⟨h.clients, h.count, h.opened, fun q => ?_, h.outstanding, h.answers⟩
  rw [← h.socket q]
  by_cases hqp : q = p
  · subst hqp
    show (Function.update t.heap q ((t.heap q).map f) q).map ClientSession.socket = _
    rw [Function.update_self, Option.map_map]
    exact Option.map_congr fun c _ => hf c
  · show (Function.update t.heap p ((t.heap p).map f) q).map ClientSession.socket = _
    rw [Function.update_of_ne hqp]

theorem Sends.start (hp : P p) : Sends P s (.wsaSend true :: l) (s.start (.send p sock)) l := by
  refine ⟨rfl, rfl, rfl, fun _ => rfl, ⟨[.send p sock], s.outstanding_start _, ?_⟩, [.wsaSend true], rfl, ?_⟩
  · intro op hop
    exact ⟨p, sock, List.mem_singleton.1 hop, hp⟩
  · intro a ha
    exact ⟨true, List.mem_singleton.1 ha⟩

theorem Sends.refused : Sends P s (.wsaSend false :: l) s l := by
  refine ⟨rfl, rfl, rfl, fun _ => rfl, ⟨[], List.Perm.refl _, by simp⟩, [.wsaSend false], rfl, ?_⟩
  intro a ha
  exact ⟨false, List.mem_singleton.1 ha⟩

theorem postSend_sends (hp : P p) (hret : postSend p msg s l = .ret b s' l') : Sends P s l s' l' := by
  obtain ⟨c, -, hcases⟩ := postSend_ret hret
  rcases hcases with ⟨-, rfl, rfl⟩ | ⟨-, -, rfl, rfl⟩ | ⟨-, -, rfl, sock, -, rfl⟩ | ⟨-, -, rfl, rfl⟩
  · exact .refl
  · exact Sends.refl.modify fun _ => rfl
  · exact (Sends.start hp).modify fun _ => rfl
  · exact Sends.refused.modify fun _ => rfl

theorem broadcastTo_sends {sender : Ptr} (hp : P p) (hret : broadcastTo msg sender p s l = .ret u s' l') :
    Sends P s l s' l' := by
  unfold broadcastTo at hret
  split at hret
  · obtain ⟨-, rfl, rfl⟩ := Prog.pure_ret.1 hret
    exact .refl
  obtain ⟨v, t, k, hmod, hret⟩ := Prog.bind_ret.1 hret
  obtain ⟨rfl, rfl⟩ := Prog.modify_ret.1 hmod
  obtain ⟨b, t, k, hsend, hret⟩ := Prog.bind_ret.1 hret
  obtain ⟨-, rfl, rfl⟩ := Prog.pure_ret.1 hret
  have hposted : Sends P s l
      (s.modify p fun c => { c with posted := if msg = [] then c.posted else c.posted ++ [msg] }) l :=
    Sends.refl.modify fun _ => rfl
  exact hposted.trans (postSend_sends hp hsend)

/-- A broadcast is sent to registered sessions. -/
theorem broadcastMsg_sends {sender : Ptr} (hret : broadcastMsg msg sender s l = .ret u s' l') :
    Sends (Registered s.clients) s l s' l' := by
  obtain ⟨t, t', k, hget, hret⟩ := Prog.bind_ret.1 hret
  obtain ⟨rfl, rfl, rfl⟩ := Prog.get_ret.1 hget
  refine Prog.triple_each (P := fun t k => Sends (Registered s.clients) s l t k) (fun p hp => ?_) s l u s' l' .refl hret
  obtain ⟨⟨sock, q⟩, hentry, rfl⟩ := List.mem_map.1 hp
  intro t k u t' k' ht hret
  exact ht.trans (broadcastTo_sends ⟨sock, AList.mem_lookup_iff.2 hentry⟩ hret)

/-- The next message is sent to the same session. -/
theorem onSendComplete_ret {ok : Bool} (hok : ¬ ok = false) (hret : onSendComplete p ok s l = .ret u s' l') :
    (∃ c, s.heap p = some c) ∧ Sends (fun q => q = p) s l s' l' := by
  rw [onSendComplete, if_neg hok] at hret
  obtain ⟨c, t, l₁, hderef, hret₁⟩ := Prog.bind_ret.1 hret
  obtain ⟨hc, rfl, rfl⟩ := deref_ret.1 hderef
  refine ⟨⟨c, hc⟩, ?_⟩
  obtain ⟨v, t₁, l₂, hmod, hret₂⟩ := Prog.bind_ret.1 hret₁
  obtain ⟨rfl, rfl⟩ := Prog.modify_ret.1 hmod
  have hpop : Sends (fun q => q = p) s l
      (s.modify p fun c => { c with sendQueue := c.sendQueue.tail, sendInFlight := false }) l :=
    Sends.refl.modify fun _ => rfl
  cases hqueue : c.sendQueue.tail with
  | nil =>
    simp only [hqueue] at hret₂
    obtain ⟨-, rfl, rfl⟩ := Prog.pure_ret.1 hret₂
    exact hpop
  | cons front queue =>
    simp only [hqueue] at hret₂
    obtain ⟨b, t₂, l₃, hsend, hret₃⟩ := Prog.bind_ret.1 hret₂
    obtain ⟨-, rfl, rfl⟩ := Prog.pure_ret.1 hret₃
    exact hpop.trans (postSend_sends rfl hsend)

/-- What was received is broadcast, and the next receive is posted. -/
theorem onRecvComplete_ret {data : List UInt8} {ok : Bool} (hdata : ¬ (ok = false ∨ data = []))
    (hret : onRecvComplete p data ok s l = .ret u s' l') :
    ∃ t k b, Sends (Registered s.clients) s l t k ∧ postRecv p t k = .ret b s' l' := by
  rw [onRecvComplete, if_neg hdata] at hret
  obtain ⟨c, t, l₁, hderef, hret₁⟩ := Prog.bind_ret.1 hret
  obtain ⟨-, rfl, rfl⟩ := deref_ret.1 hderef
  obtain ⟨v, t₁, l₂, hcast, hret₂⟩ := Prog.bind_ret.1 hret₁
  obtain ⟨b, t₂, l₃, hrecv, hret₃⟩ := Prog.bind_ret.1 hret₂
  obtain ⟨-, rfl, rfl⟩ := Prog.pure_ret.1 hret₃
  exact ⟨t₁, l₂, b, broadcastMsg_sends hcast, hrecv⟩

/-! ## Closing -/

/-- The session `p` and its socket are gone. -/
structure Closed (s s' : Server) (sock : Socket) (p : Ptr) : Prop where
  clients : ∀ sock' q, s'.clients.lookup sock' = some q ↔ sock' ≠ sock ∧ s.clients.lookup sock' = some q
  heap : s'.heap = Function.update s.heap p none
  opened : s'.opened = Function.update s.opened sock false
  outstanding : s'.outstanding = s.outstanding
  count : s.count ≤ s'.count

theorem closeSession_ret (hret : closeSession p s l = .ret u s' l') :
    ∃ c, s.heap p = some c ∧ s' = (s.stop p).erase c.socket := by
  obtain ⟨c, t, k, hderef, hret⟩ := Prog.bind_ret.1 hret
  obtain ⟨hc, rfl, rfl⟩ := deref_ret.1 hderef
  obtain ⟨v, t, k, hstop, hret⟩ := Prog.bind_ret.1 hret
  obtain ⟨rfl, rfl⟩ := Prog.modify_ret.1 hstop
  obtain ⟨rfl, -⟩ := Prog.modify_ret.1 hret
  exact ⟨c, hc, rfl⟩

/-- `Stop` and `erase` take the session out of the registry, and destroy it. -/
theorem closed_erase (hc : s.heap p = some c) (hsock : c.socket = some sock) (hp : s.clients.lookup sock = some p) :
    Closed s ((s.stop p).erase c.socket) sock p := by
  have hlookup : (s.stop p).clients.lookup sock = some p := by rwa [s.clients_stop]
  rw [hsock, Server.erase]
  simp only [hlookup]
  refine ⟨fun sock' q => ?_, ?_, ?_, ?_, ?_⟩
  · show ((s.stop p).clients.erase sock).lookup sock' = some q ↔ _
    rw [s.clients_stop, Table.lookup_erase_eq_some]
  · show ((s.stop p).destroy p).heap = _
    rw [Server.heap_destroy, s.heap_stop, Function.update_idem]
  · exact s.opened_stop_destroy p sock hc hsock
  · show ((s.stop p).destroy p).outstanding = _
    rw [Server.outstanding_destroy, s.outstanding_stop]
  · show s.count ≤ ((s.stop p).destroy p).count
    rw [Server.count_destroy, s.count_stop]

/-- The handler of the packet closes the session of the operation. -/
def Packet.Closes (packet : Packet) : Prop :=
  match packet.op with
  | .accept _ _ => False
  | .recv _ _ => packet.ok = false ∨ packet.data = []
  | .send _ _ => packet.ok = false

instance : DecidablePred Packet.Closes := fun packet =>
  match h : packet.op with
  | .accept _ _ => isFalse (by simp [Packet.Closes, h])
  | .recv _ _ => decidable_of_iff (packet.ok = false ∨ packet.data = []) (by simp [Packet.Closes, h])
  | .send _ _ => decidable_of_iff (packet.ok = false) (by simp [Packet.Closes, h])

theorem handlePacket_closes {packet : Packet} (h : packet.Closes) (hkey : packet.op.key = some p) :
    handlePacket packet = closeSession p := by
  unfold Packet.Closes at h
  unfold handlePacket
  cases hop : packet.op with
  | accept ls as =>
    rw [hop] at h
    cases h
  | recv key sock =>
    rw [hop] at h hkey
    obtain rfl : key = p := Option.some.inj hkey
    exact if_pos h
  | send key sock =>
    rw [hop] at h hkey
    obtain rfl : key = p := Option.some.inj hkey
    exact if_pos h

theorem Packet.Closes.key {packet : Packet} (h : packet.Closes) : ∃ p, packet.op.key = some p := by
  cases hop : packet.op with
  | accept ls as => simp [Packet.Closes, hop] at h
  | recv key sock => exact ⟨key, rfl⟩
  | send key sock => exact ⟨key, rfl⟩

/-- What the handler of a packet does, by the kind of the operation. -/
theorem handlePacket_ret {packet : Packet} (hret : handlePacket packet s l = .ret u s' l') :
    (∃ ls as, packet.op = .accept ls as ∧ onAcceptComplete ls as packet.ok s l = .ret u s' l') ∨
    (∃ p c, packet.op.key = some p ∧ packet.Closes ∧ s.heap p = some c ∧ s' = (s.stop p).erase c.socket) ∨
    (∃ p sock t k b, packet.op = .recv p sock ∧ ¬ packet.Closes ∧ Sends (Registered s.clients) s l t k ∧
      postRecv p t k = .ret b s' l') ∨
    ∃ p sock c, packet.op = .send p sock ∧ s.heap p = some c ∧ Sends (fun q => q = p) s l s' l' := by
  by_cases hcloses : packet.Closes
  · obtain ⟨p, hp⟩ := hcloses.key
    rw [handlePacket_closes hcloses hp] at hret
    obtain ⟨c, hc, rfl⟩ := closeSession_ret hret
    exact .inr (.inl ⟨p, c, hp, hcloses, hc, rfl⟩)
  · cases hop : packet.op with
    | accept ls as =>
      simp only [handlePacket, hop] at hret
      exact .inl ⟨ls, as, rfl, hret⟩
    | recv p sock =>
      simp only [handlePacket, hop] at hret
      have hdata := hcloses
      simp only [Packet.Closes, hop] at hdata
      obtain ⟨t, k, b, hsends, hrecv⟩ := onRecvComplete_ret hdata hret
      exact .inr (.inr (.inl ⟨p, sock, t, k, b, rfl, hcloses, hsends, hrecv⟩))
    | send p sock =>
      simp only [handlePacket, hop] at hret
      simp only [Packet.Closes, hop] at hcloses
      obtain ⟨⟨c, hc⟩, hsends⟩ := onSendComplete_ret hcloses hret
      exact .inr (.inr (.inr ⟨p, sock, c, rfl, hc, hsends⟩))

/-! ## Accepting -/

/-- The server with a new session. -/
def Server.make (s : Server) (as : Socket) : Server :=
  { s with heap := Function.update s.heap s.count (some ⟨some as, [], false, [], []⟩), count := s.count + 1 }

/-- The accepted socket is closed, or it gets a session that is dropped again, or the session is registered and
`CreateAcceptSocket` is called. -/
theorem onAcceptComplete_ret {ok : Bool} (hret : onAcceptComplete ls as ok s l = .ret u s' l') :
    ok = false ∧ s' = s.closesocket as ∨
    ok = true ∧ (∀ k, l ≠ .associate true :: .wsaRecv true :: k) ∧ s' = ((s.make as).stop s.count).destroy s.count ∨
    ok = true ∧ ∃ k b, l = .associate true :: .wsaRecv true :: k ∧
      createAcceptSocket ls (((s.make as).start (.recv s.count as)).emplace as s.count) k = .ret b s' l' := by
  unfold onAcceptComplete at hret
  split at hret
  next hok =>
    obtain ⟨rfl, -⟩ := Prog.modify_ret.1 hret
    exact .inl ⟨hok, rfl⟩
  next hok =>
    have hnew : (s.make as).heap s.count = some ⟨some as, [], false, [], []⟩ := Function.update_self ..
    refine .inr ?_
    simp only [Bool.not_eq_false] at hok
    obtain ⟨sess, made, l₁, hmake, hret₁⟩ := Prog.bind_ret.1 hret
    cases hmake
    obtain ⟨associated, t, l₂, hassociate, hret₂⟩ := Prog.bind_ret.1 hret₁
    obtain ⟨rfl, rfl⟩ := associateHandle_ret hassociate
    obtain ⟨posted, t₁, l₃, hrecv, hret₃⟩ := Prog.bind_ret.1 hret₂
    cases posted with
    | true =>
      cases associated with
      | false => cases hrecv
      | true =>
        rw [if_pos rfl] at hrecv hret₃
        obtain ⟨c, hc, ⟨-, rfl, sock, hsock, rfl⟩ | ⟨hfalse, -⟩⟩ := postRecv_ret hrecv
        swap
        · cases hfalse
        obtain rfl : _ = c := Option.some.inj (hnew.symm.trans hc)
        obtain rfl : as = sock := Option.some.inj hsock
        obtain ⟨v, t₂, l₄, hmod, hret₄⟩ := Prog.bind_ret.1 hret₃
        obtain ⟨rfl, rfl⟩ := Prog.modify_ret.1 hmod
        obtain ⟨b, t₃, l₅, hcreate, hret₅⟩ := Prog.bind_ret.1 hret₄
        obtain ⟨-, rfl, rfl⟩ := Prog.pure_ret.1 hret₅
        exact .inr ⟨hok, l₃, b, rfl, hcreate⟩
    | false =>
      have hsame : t₁ = s.make as ∧ ∀ k, Answer.associate associated :: l₂ ≠ .associate true :: .wsaRecv true :: k := by
        cases associated with
        | false => exact ⟨(Prog.pure_ret.1 hrecv).2.1.symm, by simp⟩
        | true =>
          obtain ⟨c, -, ⟨hfalse, -⟩ | ⟨-, rfl, hsame⟩⟩ := postRecv_ret hrecv
          · cases hfalse
          · exact ⟨hsame, by simp⟩
      obtain ⟨rfl, hl⟩ := hsame
      obtain ⟨v, t₂, l₄, hmod, hret₄⟩ := Prog.bind_ret.1 hret₃
      obtain ⟨rfl, rfl⟩ := Prog.modify_ret.1 hmod
      obtain ⟨rfl, -⟩ := Prog.modify_ret.1 hret₄
      exact .inl ⟨hok, hl, rfl⟩

end TcpChat.Iocp
