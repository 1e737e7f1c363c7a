import TcpChat.Iocp.SendOrder
import TcpChat.Iocp.Sessions
import Mathlib.Data.List.Rotate
import Mathlib.Logic.Relation

/-!
# What becomes of a session's queue

* `Change` — what happens to a session and to the number of its outstanding sends, and `step_changes`: nothing else does;
* `one_send` — at most one send is outstanding, of the first message of the queue, whatever fails;
* `storm` — from the moment in which a message waits behind a send, no message leaves the queue: all of them are sent
  again and again, in turn.
-/

namespace TcpChat.Iocp

open TcpChat.Lib

/-- What happens to a session and to the number of its outstanding sends; `refused` if `WSASend` fails. -/
inductive Change (refused : Prop) : ClientSession × ℕ → ClientSession × ℕ → Prop where
  | queue (c : ClientSession) (n : ℕ) (msg : List UInt8) : msg ≠ [] → c.sendInFlight = true →
      Change refused (c, n)
        ({ c with posted := c.posted ++ [msg], sendQueue := c.sendQueue ++ [msg] }, n)
  | send (c : ClientSession) (n : ℕ) (msg : List UInt8) : msg ≠ [] → c.sendInFlight = false →
      Change refused (c, n)
        ({ c with posted := c.posted ++ [msg], sendQueue := c.sendQueue ++ [msg], sendInFlight := true,
                  handed := c.handed ++ (c.sendQueue ++ [msg]).take 1 }, n + 1)
  | refuse (c : ClientSession) (n : ℕ) (msg : List UInt8) : msg ≠ [] → c.sendInFlight = false → refused →
      Change refused (c, n)
        ({ c with posted := c.posted ++ [msg], sendQueue := (c.sendQueue ++ [msg]).tail }, n)
  | sent (c : ClientSession) (n : ℕ) : (c.sendQueue.tail.headD [] = []) →
      Change refused (c, n + 1) ({ c with sendQueue := c.sendQueue.tail, sendInFlight := false }, n)
  | sendNext (c : ClientSession) (n : ℕ) (front : List UInt8) (rest : List (List UInt8)) :
      c.sendQueue.tail = front :: rest → front ≠ [] →
      Change refused (c, n + 1)
        ({ c with sendQueue := c.sendQueue.tail ++ [front], sendInFlight := true, handed := c.handed ++ [front] }, n + 1)
  | refuseNext (c : ClientSession) (n : ℕ) (front : List UInt8) (rest : List (List UInt8)) :
      c.sendQueue.tail = front :: rest → front ≠ [] → refused →
      Change refused (c, n + 1) ({ c with sendQueue := rest ++ [front], sendInFlight := false }, n)

/-- Every session of `t` is one of `s` that has changed. -/
def Changed (refused : Prop) (s t : Server) : Prop :=
  ∀ p d, t.heap p = some d → ∃ c, s.heap p = some c ∧
    Relation.ReflTransGen (Change refused) (c, s.sends p) (d, t.sends p)

variable {s s' t u : Server} {op : Op} {p q : Ptr} {sock as ls : Socket} {c c₀ d : ClientSession}
  {l l' k answers : List Answer} {msg : List UInt8} {b refused : Bool} {r : Prop} {n m : ℕ} {x : Input}

theorem Changed.refl : Changed r s s := fun _ d hd => ⟨d, hd, .refl⟩

theorem Changed.trans (h : Changed r s t) (h' : Changed r t u) : Changed r s u := by
  intro p d hd
  obtain ⟨c, hc, hchange'⟩ := h' p d hd
  obtain ⟨c', hc', hchange⟩ := h p c hc
  exact ⟨c', hc', hchange.trans hchange'⟩

/-- Sessions may be destroyed. -/
theorem Changed.of_heap (hheap : ∀ p d, t.heap p = some d → s.heap p = some d) (hsends : ∀ p d, t.heap p = some d →
    t.sends p = s.sends p) : Changed r s t := by
  intro p d hd
  refine ⟨d, hheap p d hd, ?_⟩
  rw [hsends p d hd]

/-- Only the session `q` changes. -/
theorem Changed.single {f : ClientSession → ClientSession} (hheap : t.heap = s.heap)
    (hsends : ∀ p, p ≠ q → t.sends p = s.sends p) (hc : s.heap q = some c)
    (hchange : Relation.ReflTransGen (Change r) (c, s.sends q) (f c, t.sends q)) : Changed r s (t.modify q f) := by
  intro p d hd
  by_cases hp : p = q
  · subst hp
    simp only [Server.modify, Function.update_self, hheap, hc, Option.map_some, Option.some.injEq] at hd
    subst hd
    exact ⟨c, hc, hchange⟩
  · simp only [Server.modify, Function.update_of_ne hp, hheap] at hd
    refine ⟨d, hd, ?_⟩
    rw [← hsends p hp]
    rfl

/-! ## The handlers -/

theorem sends_start_send : (s.start (.send q sock)).sends p = s.sends p + if q = p then 1 else 0 := by
  rw [sends_start]
  simp [Op.isSend]

/-- The body of the broadcast. -/
theorem broadcastTo_changed {sender : Ptr} {v : Unit} (hl : .wsaSend false ∈ l → r)
    (hret : broadcastTo msg sender q s l = .ret v s' l') : Changed r s s' ∧ (.wsaSend false ∈ l' → r) := by
  unfold broadcastTo at hret
  split at hret
  · obtain ⟨-, rfl, rfl⟩ := Prog.pure_ret.1 hret
    exact ⟨.refl, hl⟩
  obtain ⟨v, t, k, hmod, hret⟩ := Prog.bind_ret.1 hret
  obtain ⟨rfl, rfl⟩ := Prog.modify_ret.1 hmod
  obtain ⟨b, t, k, hsend, hret⟩ := Prog.bind_ret.1 hret
  obtain ⟨-, rfl, rfl⟩ := Prog.pure_ret.1 hret
  obtain ⟨d, hd, hcases⟩ := postSend_ret hsend
  simp only [Server.modify, Function.update_self, Option.map_eq_some_iff] at hd
  obtain ⟨c, hc, rfl⟩ := hd
  rcases hcases with ⟨hmsg, rfl, rfl⟩ | ⟨hmsg, hin, rfl, rfl⟩ | ⟨hmsg, hin, rfl, sock, -, rfl⟩ | ⟨hmsg, hin, rfl, rfl⟩
  · refine ⟨.single rfl (fun _ _ => rfl) hc ?_, hl⟩
    rw [if_pos hmsg]
  · rw [Server.modify_modify]
    refine ⟨.single rfl (fun _ _ => rfl) hc (.single ?_), hl⟩
    simpa [hmsg] using Change.queue c (s.sends q) msg hmsg hin
  · rw [Server.modify_start, Server.modify_modify]
    refine ⟨.single rfl (fun p hp => ?_) hc (.single ?_), fun hmem => hl (List.mem_cons_of_mem _ hmem)⟩
    · rw [sends_start_send, if_neg (Ne.symm hp), Nat.add_zero]
    · rw [sends_start_send, if_pos rfl]
      simpa [hmsg] using Change.send c (s.sends q) msg hmsg hin
  · rw [Server.modify_modify]
    refine ⟨.single rfl (fun _ _ => rfl) hc (.single ?_), fun hmem => hl (List.mem_cons_of_mem _ hmem)⟩
    simpa [hmsg] using Change.refuse c (s.sends q) msg hmsg hin (hl List.mem_cons_self)

theorem broadcastMsg_changed {sender : Ptr} {v : Unit} (hl : .wsaSend false ∈ l → r)
    (hret : broadcastMsg msg sender s l = .ret v s' l') : Changed r s s' ∧ (.wsaSend false ∈ l' → r) := by
  obtain ⟨t, t', k, hget, hret⟩ := Prog.bind_ret.1 hret
  obtain ⟨rfl, rfl, rfl⟩ := Prog.get_ret.1 hget
  refine Prog.triple_each (P := fun t k => Changed r s t ∧ (.wsaSend false ∈ k → r)) (fun p _ => ?_) s l v s' l'
    ⟨.refl, hl⟩ hret
  rintro t k v t' k' ⟨ht, hk⟩ hret
  exact (broadcastTo_changed hk hret).imp_left ht.trans

/-- A receive is no send. -/
theorem postRecv_changed (hret : postRecv p s l = .ret b s' l') : Changed r s s' := by
  obtain ⟨c, -, ⟨-, -, sock, -, rfl⟩ | ⟨-, -, rfl⟩⟩ := postRecv_ret hret
  · refine .of_heap (fun _ _ hd => hd) fun q _ _ => ?_
    rw [sends_start]
    rfl
  · exact .refl

theorem onRecvComplete_changed {data : List UInt8} {ok : Bool} {v : Unit} (hdata : ¬ (ok = false ∨ data = []))
    (hl : .wsaSend false ∈ l → r) (hret : onRecvComplete p data ok s l = .ret v s' l') : Changed r s s' := by
  rw [onRecvComplete, if_neg hdata] at hret
  obtain ⟨c, t, l₁, hderef, hret₁⟩ := Prog.bind_ret.1 hret
  obtain ⟨-, rfl, rfl⟩ := deref_ret.1 hderef
  obtain ⟨v, t₁, l₂, hcast, hret₂⟩ := Prog.bind_ret.1 hret₁
  obtain ⟨b, t₂, l₃, hrecv, hret₃⟩ := Prog.bind_ret.1 hret₂
  obtain ⟨-, rfl, rfl⟩ := Prog.pure_ret.1 hret₃
  exact (broadcastMsg_changed hl hcast).1.trans (postRecv_changed hrecv)

/-- `OnSendComplete`, after the packet of the operation has been taken from `s`. -/
theorem onSendComplete_changed {v : Unit} (hheap : t.heap = s.heap)
    (hout : s.outstanding.Perm (.send q sock :: t.outstanding)) (hl : .wsaSend false ∈ l → r)
    (hret : onSendComplete q true t l = .ret v s' l') : Changed r s s' := by
  have hsends : ∀ p, s.sends p = t.sends p + if q = p then 1 else 0 := fun p => by
    rw [Server.sends, hout.countP_eq, List.countP_cons, Server.sends]
    simp [Op.isSend]
  have hone : s.sends q = t.sends q + 1 := by rw [hsends, if_pos rfl]
  have hothers : ∀ p, p ≠ q → t.sends p = s.sends p := fun p hp => by
    rw [hsends, if_neg (Ne.symm hp), Nat.add_zero]
  obtain ⟨c, t', k, hderef, hret⟩ := Prog.bind_ret.1 hret
  obtain ⟨hc, rfl, rfl⟩ := deref_ret.1 hderef
  rw [hheap] at hc
  obtain ⟨v, t', k, hmod, hret⟩ := Prog.bind_ret.1 hret
  obtain ⟨rfl, rfl⟩ := Prog.modify_ret.1 hmod
  cases hqueue : c.sendQueue.tail with
  | nil =>
    simp only [hqueue] at hret
    obtain ⟨-, rfl, rfl⟩ := Prog.pure_ret.1 hret
    refine .single hheap hothers hc (.single ?_)
    rw [hone]
    exact .sent c _ (by rw [hqueue]; rfl)
  | cons front rest =>
    simp only [hqueue] at hret
    obtain ⟨b, t', k, hsend, hret⟩ := Prog.bind_ret.1 hret
    obtain ⟨-, rfl, rfl⟩ := Prog.pure_ret.1 hret
    obtain ⟨d, hd, hcases⟩ := postSend_ret hsend
    simp only [Server.modify, Function.update_self, Option.map_eq_some_iff] at hd
    obtain ⟨c', hc', rfl⟩ := hd
    obtain rfl : c = c' := Option.some.inj (hc.symm.trans (hheap ▸ hc'))
    rcases hcases with ⟨hfront, rfl, rfl⟩ | ⟨-, hin, -, -⟩ | ⟨hfront, -, rfl, sock', -, rfl⟩ | ⟨hfront, -, rfl, rfl⟩
    · refine .single hheap hothers hc (.single ?_)
      rw [hone]
      exact .sent c _ (by rw [hqueue]; exact hfront)
    · cases hin
    · rw [Server.modify_start, Server.modify_modify]
      refine .single hheap (fun p hp => ?_) hc (.single ?_)
      · rw [sends_start_send, if_neg (Ne.symm hp), Nat.add_zero]
        exact hothers p hp
      · rw [sends_start_send, if_pos rfl, hone]
        have hnext : Change r (c, t.sends q + 1) _ := .sendNext c (t.sends q) front rest hqueue hfront
        simpa [hqueue] using hnext
    · rw [Server.modify_modify]
      refine .single hheap hothers hc (.single ?_)
      rw [hone]
      simpa [hqueue] using Change.refuseNext c (t.sends q) front rest hqueue hfront (hl List.mem_cons_self)

/-! ## Steps -/

/-- A `WSASend` of the step fails. -/
def Input.Refuses : Input → Prop
  | .complete _ _ _ => False
  | .dequeue answers => .wsaSend false ∈ answers

instance : DecidablePred Input.Refuses
  | .complete _ _ _ => isFalse id
  | .dequeue answers => inferInstanceAs (Decidable (.wsaSend false ∈ answers))

/-- A new session has been made. -/
def Made (s t : Server) (p : Ptr) (d : ClientSession) : Prop :=
  p = s.count ∧ t.sends p = 0 ∧ d.sendQueue = [] ∧ d.sendInFlight = false ∧ d.posted = [] ∧ d.handed = []

theorem sends_perm (h : s.outstanding.Perm (op :: t.outstanding)) :
    s.sends p = t.sends p + if op.isSend p then 1 else 0 := by
  rw [Server.sends, h.countP_eq, List.countP_cons]
  rfl

theorem sends_congr (h : t.outstanding = s.outstanding) : t.sends p = s.sends p := by
  rw [Server.sends, h, Server.sends]

/-- A session that does not exist yet has no sends. -/
theorem Homed.sends_count (h : Homed s) : s.sends s.count = 0 := by
  refine List.countP_eq_zero.2 fun op hop hsend => ?_
  cases op with
  | accept | recv => simp [Op.isSend] at hsend
  | send key sock =>
    simp only [Op.isSend, decide_eq_true_eq] at hsend
    exact absurd (h.key _ hop s.count (by rw [← hsend]; rfl)) (Nat.lt_irrefl _)

/-- The session that is closed had nothing to do with the sends of the others. -/
theorem Closed.changed (hc : Closed s t sock q) (hsends : ∀ p, p ≠ q → s.sends p = u.sends p) (hheap : s.heap = u.heap) :
    Changed r u t := by
  refine .of_heap (fun p d hd => ?_) fun p d hd => ?_
  all_goals
    have hpq : p ≠ q := by
      rintro rfl
      rw [hc.heap, Function.update_self] at hd
      cases hd
  · rwa [hc.heap, Function.update_of_ne hpq, hheap] at hd
  · rw [← hsends p hpq, sends_congr hc.outstanding]

theorem createAcceptSocket_sends (hret : createAcceptSocket ls s l = .ret b s' l') :
    s'.heap = s.heap ∧ ∀ p, s'.sends p = s.sends p := by
  rcases createAcceptSocket_ret hret with ⟨a, -, -, rfl⟩ | ⟨-, rfl⟩
  · exact ⟨rfl, fun p => sends_start⟩
  · exact ⟨rfl, fun _ => rfl⟩

/-- Either the new session is dropped again, or it is there with an empty queue. -/
theorem onAcceptComplete_changed {ok : Bool} {v : Unit} (h : Homed s) (hu : Unclaimed s as)
    (hret : onAcceptComplete ls as ok s l = .ret v s' l') (hd : s'.heap p = some d) :
    Made s s' p d ∨ s.heap p = some d ∧ s'.sends p = s.sends p := by
  rcases onAcceptComplete_ret hret with ⟨-, rfl⟩ | ⟨-, -, rfl⟩ | ⟨-, k, b, -, hcreate⟩
  · exact .inr ⟨hd, sends_congr (s.outstanding_closesocket as)⟩
  · have hp : p ≠ s.count := by
      rintro rfl
      rw [Server.heap_destroy, Function.update_self] at hd
      cases hd
    rw [Server.heap_destroy, Server.heap_stop, Function.update_idem, Function.update_of_ne hp] at hd
    have hout : (((s.make as).stop s.count).destroy s.count).outstanding = s.outstanding := by
      rw [Server.outstanding_destroy, Server.outstanding_stop]
      rfl
    exact .inr ⟨(Function.update_of_ne hp ..).symm.trans hd, sends_congr hout⟩
  · have hclient : as ∉ ((s.make as).start (.recv s.count as)).clients := hu.client
    rw [Server.emplace, if_neg hclient] at hcreate
    obtain ⟨hheap, hsends⟩ := createAcceptSocket_sends hcreate
    have hsends : s'.sends p = s.sends p := (hsends p).trans sends_start
    have hheap : s'.heap = Function.update s.heap s.count (some ⟨some as, [], false, [], []⟩) := hheap
    by_cases hp : p = s.count
    · subst hp
      rw [hheap, Function.update_self] at hd
      cases hd
      exact .inl ⟨rfl, hsends.trans h.sends_count, rfl, rfl, rfl, rfl⟩
    · rw [hheap, Function.update_of_ne hp] at hd
      exact .inr ⟨hd, hsends⟩

/-- **What a step does to the sessions**: those there were change, and the others are new. -/
theorem step_changes (h : Homed s) (hst : s.step x = some s') (hd : s'.heap p = some d) :
    Made s s' p d ∨ ∃ c, s.heap p = some c ∧
      Relation.ReflTransGen (Change x.Refuses) (c, s.sends p) (d, s'.sends p) := by
  rcases Server.step_cases hst with ⟨k, ok, data, o, rfl, ho, -, rfl⟩ | ⟨answers, packet, packets, l', rfl, hp, hret⟩
  · refine .inr ⟨d, hd, ?_⟩
    have hsends := (Server.outstanding_complete ho ok data).countP_eq (Op.isSend p)
    rw [Server.sends, Server.sends, hsends]
  have hperm := Server.outstanding_dequeue hp
  have hrest : Homed { s with packets := packets } := h.rest [packet.op] hperm
  have hsame : (∀ p, packet.op.isSend p = false) → Changed (Input.dequeue answers).Refuses s { s with packets := packets } :=
    fun hno => .of_heap (fun _ _ hd => hd) fun p _ _ => by rw [sends_perm hperm, hno]; rfl
  by_cases hcloses : packet.Closes
  · obtain ⟨q, hq⟩ := hcloses.key
    rw [handlePacket_closes hcloses hq] at hret
    obtain ⟨c, hc, rfl⟩ := closeSession_ret hret
    obtain ⟨sock, -, hclosed⟩ := hrest.erase_closed hc
    refine .inr (hclosed.changed (u := s) (fun p hpq => ?_) rfl p d hd)
    rw [sends_perm hperm]
    symm
    cases hop : packet.op with
    | accept | recv => rfl
    | send key sock' =>
      rw [hop] at hq
      obtain rfl : key = q := Option.some.inj hq
      simp [Op.isSend, Ne.symm hpq]
  cases hop : packet.op with
  | accept ls as =>
    simp only [handlePacket, hop] at hret
    have hstill := hsame fun p => by rw [hop]; rfl
    refine (onAcceptComplete_changed hrest (h.unclaimed (hop ▸ hperm)) hret hd).imp id fun hkept => ?_
    obtain ⟨hold, hsends⟩ := hkept
    rw [hsends]
    exact hstill p d hold
  | recv key sock =>
    have hdata := hcloses
    simp only [Packet.Closes, hop] at hdata
    simp only [handlePacket, hop] at hret
    have hstill := hsame fun p => by rw [hop]; rfl
    exact .inr (hstill.trans (onRecvComplete_changed hdata id hret) p d hd)
  | send key sock =>
    simp only [Packet.Closes, hop, Bool.not_eq_false] at hcloses
    simp only [handlePacket, hop, hcloses] at hret
    exact .inr (onSendComplete_changed (s := s) (t := { s with packets := packets }) rfl (hop ▸ hperm) id hret p d hd)

/-! ## One send -/

/-- At most one send is outstanding, of the message at the front of the queue. -/
structure OneSend (c : ClientSession) (n : ℕ) : Prop where
  nonempty : ∀ msg ∈ c.sendQueue, msg ≠ []
  inFlight : c.sendInFlight = true → n = 1 ∧ c.sendQueue ≠ [] ∧ c.sendQueue.head? = c.handed.getLast?
  idle : c.sendInFlight = false → n = 0

/-- A send that completes was the one in flight. -/
theorem OneSend.completed (h : OneSend c (n + 1)) : n = 0 ∧ c.sendInFlight = true := by
  have hin : c.sendInFlight = true := by
    by_contra hin
    exact absurd (h.idle (by simpa using hin)) (Nat.succ_ne_zero n)
  exact ⟨Nat.succ.inj (h.inFlight hin).1, hin⟩

theorem OneSend.change (h : OneSend c n) (hc : Change r (c, n) (d, m)) : OneSend d m := by
  have hadd : ∀ {queue : List (List UInt8)} {msg}, msg ≠ [] → (∀ m ∈ queue, m ≠ []) → ∀ m ∈ queue ++ [msg], m ≠ [] := by
    intro queue msg hmsg hqueue m hm
    rcases List.mem_append.1 hm with hm | hm
    · exact hqueue m hm
    · exact List.mem_singleton.1 hm ▸ hmsg
  cases hc with
  | queue _ _ msg hmsg hin =>
    obtain ⟨hone, hne, hfront⟩ := h.inFlight hin
    refine ⟨hadd hmsg h.nonempty, fun _ => ⟨hone, by simp, ?_⟩, fun hidle => nomatch hin.symm.trans hidle⟩
    rw [← hfront]
    exact List.head?_append_of_ne_nil _ hne
  | send _ _ msg hmsg hidle =>
    refine ⟨hadd hmsg h.nonempty, fun _ => ⟨by rw [h.idle hidle], by simp, ?_⟩, nofun⟩
    cases c.sendQueue <;> simp
  | refuse _ _ msg hmsg hidle =>
    refine ⟨fun m hm => hadd hmsg h.nonempty m (List.mem_of_mem_tail hm), fun hin => ?_, fun _ => h.idle hidle⟩
    exact nomatch hin.symm.trans hidle
  | sent =>
    exact ⟨fun m hm => h.nonempty m (List.mem_of_mem_tail hm), nofun, fun _ => h.completed.1⟩
  | sendNext _ _ front rest hqueue hfront =>
    have htail : ∀ m ∈ c.sendQueue.tail, m ≠ [] := fun m hm => h.nonempty m (List.mem_of_mem_tail hm)
    refine ⟨hadd hfront htail, fun _ => ⟨by rw [h.completed.1], by simp, ?_⟩, nofun⟩
    simp [hqueue]
  | refuseNext _ _ front rest hqueue hfront =>
    have hrest : ∀ m ∈ rest, m ≠ [] := fun m hm =>
      h.nonempty m (List.mem_of_mem_tail (by rw [hqueue]; exact List.mem_cons_of_mem _ hm))
    exact ⟨hadd hfront hrest, nofun, fun _ => h.completed.1⟩

theorem OneSend.changes {a : ClientSession × ℕ} (h : OneSend c n) (hc : Relation.ReflTransGen (Change r) (c, n) a) :
    OneSend a.1 a.2 := by
  induction hc with
  | refl => exact h
  | tail _ hc ih => exact ih.change hc

/-- All sessions. -/
def Single (s : Server) : Prop := ∀ p c, s.heap p = some c → OneSend c (s.sends p)

theorem single_init (h : server.init s) : Single s := by
  refine of_init (fun _ => nofun) (fun ls s l b s' l' h hret p c hc => ?_) h
  obtain ⟨hheap, hsends⟩ := createAcceptSocket_sends hret
  rw [hsends]
  exact h p c (hheap ▸ hc)

theorem single_step (hh : Homed s) (h : Single s) (hst : s.step x = some s') : Single s' := by
  intro p d hd
  rcases step_changes hh hst hd with ⟨-, hsends, hqueue, hidle, -, -⟩ | ⟨c, hc, hchange⟩
  · refine ⟨by simp [hqueue], fun hin => ?_, fun _ => hsends⟩
    exact nomatch hin.symm.trans hidle
  · exact (h p c hc).changes hchange

theorem one_send_of_reach (h : server.Reachable s) : Single s :=
  h.invariant Single (fun _ hi => single_init hi) fun _ _ _ hr hs _ hst => single_step (homed_of_reach hr) hs hst

/-- The first messages of the queue as it turns round `k` times. -/
def turns (queue : List (List UInt8)) (k : ℕ) : List (List UInt8) := (List.range k).flatMap fun i => (queue.rotate i).take 1

/-- Since `c₀` a send has been in flight all the time, and no message has left the queue: those that wait are those
that waited and those that have been broadcast.  Without a broadcast they are sent in turn. -/
structure Storm (c₀ c : ClientSession) : Prop where
  inFlight : c.sendInFlight = true
  waiting : ∃ new, c.posted = c₀.posted ++ new ∧ (∀ msg ∈ new, msg ≠ []) ∧
    c.sendQueue.tail.Perm (c₀.sendQueue.tail ++ new)
  handed : c.posted = c₀.posted → ∃ k, c.sendQueue.tail = c₀.sendQueue.tail.rotate k ∧
    c.handed = c₀.handed ++ turns c₀.sendQueue.tail k

theorem Storm.change (hwaits : c₀.sendQueue.tail ≠ []) (hne : ∀ msg ∈ c₀.sendQueue.tail, msg ≠ []) (h : Storm c₀ c)
    (hc : Change False (c, n) (d, m)) : Storm c₀ d ∧ m = n := by
  obtain ⟨hin, ⟨new, hposted, hnew, hperm⟩, hturns⟩ := h
  have hwaits' : c.sendQueue.tail ≠ [] := fun hnil => by
    rw [hnil] at hperm
    exact hwaits (List.append_eq_nil_iff.1 hperm.symm.eq_nil).1
  cases hc with
  | queue _ _ msg hmsg _ =>
    have htail : (c.sendQueue ++ [msg]).tail = c.sendQueue.tail ++ [msg] :=
      List.tail_append_of_ne_nil fun hnil => hwaits' (by rw [hnil, List.tail_nil])
    refine ⟨⟨hin, ⟨new ++ [msg], ?_, ?_, ?_⟩, fun hsame => ?_⟩, rfl⟩
    · simp [hposted]
    · intro m hm
      exact (List.mem_append.1 hm).elim (hnew m) fun hm => List.mem_singleton.1 hm ▸ hmsg
    · rw [htail, ← List.append_assoc]
      exact hperm.append_right [msg]
    · have hlen := congrArg List.length hsame
      simp only [hposted, List.length_append, List.length_singleton] at hlen
      omega
  | send _ _ msg _ hidle => exact nomatch hin.symm.trans hidle
  | refuse _ _ msg _ _ hno => exact hno.elim
  | sent _ _ hnone =>
    obtain ⟨front, rest, hqueue⟩ := List.exists_cons_of_ne_nil hwaits'
    rw [hqueue, List.headD_cons] at hnone
    have hfront : front ∈ c₀.sendQueue.tail ++ new := hperm.mem_iff.1 (by rw [hqueue]; exact List.mem_cons_self)
    exact absurd hnone ((List.mem_append.1 hfront).elim (hne front) (hnew front))
  | sendNext _ _ front rest hqueue _ =>
    have htail : (c.sendQueue.tail ++ [front]).tail = rest ++ [front] := by rw [hqueue, List.cons_append, List.tail_cons]
    refine ⟨⟨rfl, ⟨new, hposted, hnew, ?_⟩, fun hsame => ?_⟩, rfl⟩
    · rw [htail]
      exact (List.perm_append_singleton ..).trans (hqueue ▸ hperm)
    · obtain ⟨k, hrotate, hhanded⟩ := hturns hsame
      rw [hqueue] at hrotate
      refine ⟨k + 1, ?_, ?_⟩
      · rw [htail, ← List.rotate_rotate, ← hrotate, List.rotate_cons_succ, List.rotate_zero]
      · rw [turns, List.range_succ, List.flatMap_append, List.flatMap_singleton, ← hrotate, ← turns,
          ← List.append_assoc, ← hhanded]
        rfl
  | refuseNext _ _ front rest _ _ hno => exact hno.elim

theorem Storm.changes (hwaits : c₀.sendQueue.tail ≠ []) (hne : ∀ msg ∈ c₀.sendQueue.tail, msg ≠ []) (h : Storm c₀ c)
    {a : ClientSession × ℕ} (hc : Relation.ReflTransGen (Change False) (c, n) a) : Storm c₀ a.1 ∧ a.2 = n := by
  induction hc with
  | refl => exact ⟨h, rfl⟩
  | tail _ hc ih => exact (ih.1.change hwaits hne hc).imp_right (·.trans ih.2)

/-- In the storm, or destroyed. -/
structure Stormy (p : Ptr) (c₀ : ClientSession) (s : Server) : Prop where
  live : p < s.count
  session : ∀ c, s.heap p = some c → Storm c₀ c ∧ s.sends p = 1

theorem count_step (h : Homed s) (hst : s.step x = some s') : s.count ≤ s'.count := by
  rcases Server.step_cases hst with ⟨k, ok, data, o, rfl, -, -, rfl⟩ | ⟨answers, packet, packets, l', rfl, hp, hret⟩
  · exact Nat.le_refl _
  have hperm := Server.outstanding_dequeue hp
  have hrest : Homed { s with packets := packets } := h.rest [packet.op] hperm
  rcases handlePacket_ret hret with ⟨ls, as, hop, hret⟩ | ⟨q, c, -, -, hc, rfl⟩ |
    ⟨q, sock, t, k, b, -, -, hsends, hrecv⟩ | ⟨q, sock, c, -, -, hsends⟩
  · rcases onAcceptComplete_cases hrest (h.unclaimed (hop ▸ hperm)) hret with hclosed | ⟨t, k, b, hconnected, hcreate⟩
    · exact hclosed.count
    · have hcount : s'.count = t.count := by
        rcases createAcceptSocket_ret hcreate with ⟨a, -, -, rfl⟩ | ⟨-, rfl⟩ <;> rfl
      rw [hcount, hconnected.count]
      exact Nat.le_succ _
  · obtain ⟨sock, -, hclosed⟩ := hrest.erase_closed hc
    exact hclosed.count
  · obtain ⟨c, -, ⟨-, -, sock, -, rfl⟩ | ⟨-, -, rfl⟩⟩ := postRecv_ret hrecv <;> exact hsends.count.ge
  · exact hsends.count.ge

theorem Stormy.step (hwaits : c₀.sendQueue.tail ≠ []) (hne : ∀ msg ∈ c₀.sendQueue.tail, msg ≠ []) (hh : Homed s)
    (h : Stormy p c₀ s) (hok : ¬ x.Refuses) (hst : s.step x = some s') : Stormy p c₀ s' := by
  refine ⟨h.live.trans_le (count_step hh hst), fun d hd => ?_⟩
  rcases step_changes hh hst hd with ⟨rfl, -⟩ | ⟨c, hc, hchange⟩
  · exact absurd h.live (Nat.lt_irrefl _)
  · obtain ⟨hstorm, hone⟩ := h.session c hc
    rw [eq_false hok, hone] at hchange
    exact hstorm.changes hwaits hne hchange

/-- **A message that waits is sent for ever**: as long as `WSASend` takes what it is given and the session is there, a
send is in flight and no message leaves the queue. -/
theorem storm (h : server.Reachable s) (hc : s.heap p = some c) (hin : c.sendInFlight = true)
    (hlen : 2 ≤ c.sendQueue.length) (hr : (server.startedIn s).Reach (fun _ x => ¬ x.Refuses) s')
    (hd : s'.heap p = some d) : Storm c d ∧ s'.sends p = 1 := by
  have hone := one_send_of_reach h p c hc
  have hwaits : c.sendQueue.tail ≠ [] := List.ne_nil_of_length_pos (by rw [List.length_tail]; omega)
  have hne : ∀ msg ∈ c.sendQueue.tail, msg ≠ [] := fun msg hmsg => hone.nonempty msg (List.mem_of_mem_tail hmsg)
  have hstart : Storm c c := by
    refine ⟨hin, ⟨[], by simp, by simp, by simp⟩, fun _ => ⟨0, ?_, ?_⟩⟩
    · rw [List.rotate_zero]
    · simp [turns]
  have hall : Homed s' ∧ Stormy p c s' := by
    refine hr.invariant (fun t => Homed t ∧ Stormy p c t) ?_ fun t x t' _ ht hok hst =>
      ⟨homed_step ht.1 hst, ht.2.step hwaits hne ht.1 hok hst⟩
    rintro _ rfl
    refine ⟨homed_of_reach h, ((homed_of_reach h).live p c hc).1, fun d hd => ?_⟩
    obtain rfl : c = d := Option.some.inj (hc.symm.trans hd)
    exact ⟨hstart, (hone.inFlight hin).1⟩
  exact hall.2.session d hd

/-- A second byte is broadcast while the first is being sent. -/
def waitingByte : List Input := sendByte ++ [Input.complete 2 true [66], Input.dequeue [.wsaRecv true]]

/-- Three completions, after each of which the second byte is sent. -/
def turned : List Input :=
  [.complete 1 true [], .dequeue [.wsaSend true], .complete 2 true [], .dequeue [.wsaSend true],
   .complete 2 true [], .dequeue [.wsaSend true]]

theorem storm_turned : ∃ s s' c d, server.run twoListening waitingByte = some s ∧ server.run s turned = some s' ∧
    s.heap 0 = some c ∧ s'.heap 0 = some d ∧ d.handed = [[65], [66], [66], [66]] ∧ Storm c d ∧ s'.sends 0 = 1 := by
  have hrun : (server.run twoListening waitingByte).map
        (fun s => (s.heap 0).map fun c => (c.sendInFlight, c.sendQueue)) = some (some (true, [[65], [66]])) ∧
      (server.run twoListening (waitingByte ++ turned)).map (fun s => (s.heap 0).map ClientSession.handed) =
        some (some [[65], [66], [66], [66]]) := by decide +kernel
  obtain ⟨hwaiting, hturned⟩ := hrun
  obtain ⟨s, hs, hv⟩ := Option.map_eq_some_iff.1 hwaiting
  obtain ⟨c, hc, hv⟩ := Option.map_eq_some_iff.1 hv
  obtain ⟨s', hs', hw⟩ := Option.map_eq_some_iff.1 hturned
  obtain ⟨d, hd, hw⟩ := Option.map_eq_some_iff.1 hw
  rw [System.run_append, hs, Option.bind_some] at hs'
  simp only [Prod.mk.injEq] at hv
  obtain ⟨hin, hqueue⟩ := hv
  have hlen : 2 ≤ c.sendQueue.length := by rw [hqueue]; decide
  refine ⟨s, s', c, d, hs, hs', hc, hd, hw, ?_⟩
  exact storm (System.reachable_of_run twoListening_init hs) hc hin hlen
    (System.reach_startedIn hs' (System.along_of_forall (by decide) s)) hd

end TcpChat.Iocp
