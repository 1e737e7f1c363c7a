import TcpChat.Iocp.Effects

/-!
# The pending accepts

`OnAcceptComplete` starts another `AcceptEx` on the listener of the one that has completed, but not if the completion
failed, and not if the session that it has made cannot be associated with the port or cannot receive.

* `Server.accepts` — the accepts of a listener that have not been handled;
* `accepts_full` — their number stays the same in a run in which every connection is registered;
* `accepts_lost` — any other completion takes one of them away for good.
-/

namespace TcpChat.Iocp

open TcpChat.Lib

/-- The operation is an `AcceptEx` on the listener. -/
def Op.isAccept (ls : Socket) : Op → Bool
  | accept listenSock _ => listenSock = ls
  | _ => false

/-- The number of accepts of the listener that have been started and whose completion has not been handled. -/
def Server.accepts (s : Server) (ls : Socket) : ℕ := s.outstanding.countP (Op.isAccept ls)

/-- The server after a start in which every call of `CreateAcceptSocket` succeeded. -/
def acceptServer (listenSockets : List Socket) : System Server Input where
  init s := listenSockets.Nodup ∧ ∃ l l', .acceptSocket none ∉ l ∧
    startAccepts listenSockets (.listening listenSockets) l = .ret () s l'
  step := Server.step

/-- Every call of `CreateAcceptSocket` succeeds. -/
def Supplied (_ : Server) : Input → Prop
  | .complete _ _ _ => True
  | .dequeue answers => .acceptSocket none ∉ answers

/-- The handler of an accept is told that it succeeded, and the new session is associated with the port and starts to
receive. -/
def Admits (s : Server) : Input → Prop
  | .complete _ _ _ => True
  | .dequeue answers => ∀ packet ∈ s.packets.head?, packet.op.key = none →
      packet.ok = true ∧ [.associate true, .wsaRecv true] <+: answers

instance (s : Server) : DecidablePred (Supplied s)
  | .complete _ _ _ => isTrue trivial
  | .dequeue answers => inferInstanceAs (Decidable (_ ∉ answers))

instance (s : Server) : DecidablePred (Admits s)
  | .complete _ _ _ => isTrue trivial
  | .dequeue _ => inferInstanceAs (Decidable (∀ packet ∈ s.packets.head?, _))

variable {s s' : Server} {op : Op} {p : Ptr} {as ls ls' : Socket} {l l' : List Answer} {b : Bool} {u : Unit} {x : Input}
  {listenSockets : List Socket}

/-! ## Counting -/

theorem accepts_perm (h : s.outstanding.Perm (op :: s'.outstanding)) :
    s.accepts ls = s'.accepts ls + if op.isAccept ls then 1 else 0 := by
  rw [Server.accepts, h.countP_eq, List.countP_cons]
  rfl

theorem accepts_start (op : Op) : (s.start op).accepts ls = s.accepts ls + if op.isAccept ls then 1 else 0 :=
  accepts_perm (s.outstanding_start op)

theorem accepts_congr (h : s'.outstanding = s.outstanding) : s'.accepts ls = s.accepts ls := by
  rw [Server.accepts, h, Server.accepts]

theorem Sends.accepts {P : Ptr → Prop} (h : Sends P s l s' l') : s'.accepts ls = s.accepts ls := by
  obtain ⟨ops, hops, hsend⟩ := h.outstanding
  have hzero : ops.countP (Op.isAccept ls) = 0 := by
    refine List.countP_eq_zero.2 fun op hop => ?_
    obtain ⟨p, sock, rfl, -⟩ := hsend op hop
    simp [Op.isAccept]
  rw [Server.accepts, hops.countP_eq, List.countP_append, hzero, Nat.zero_add, Server.accepts]

theorem createAcceptSocket_accepts (ls : Socket) (hl : .acceptSocket none ∉ l)
    (hret : createAcceptSocket ls' s l = .ret b s' l') :
    s'.accepts ls = s.accepts ls + (if ls' = ls then 1 else 0) ∧ .acceptSocket none ∉ l' := by
  rcases createAcceptSocket_ret hret with ⟨a, rfl, -, rfl⟩ | ⟨rfl, -⟩
  · refine ⟨?_, fun hmem => hl (List.mem_cons_of_mem _ hmem)⟩
    rw [accepts_start]
    simp only [Op.isAccept, decide_eq_true_eq]
    rfl
  · exact absurd List.mem_cons_self hl

/-! ## Starting -/

theorem startAccept_accepts (ls : Socket) {ns : List ℕ} (hl : .acceptSocket none ∉ l)
    (hret : Prog.each (fun _ => do let _ ← createAcceptSocket ls') ns s l = .ret u s' l') :
    s'.accepts ls = s.accepts ls + (if ls' = ls then ns.length else 0) ∧ .acceptSocket none ∉ l' := by
  induction ns generalizing s l with
  | nil =>
    obtain ⟨-, rfl, rfl⟩ := Prog.pure_ret.1 hret
    exact ⟨by simp, hl⟩
  | cons n ns ih =>
    obtain ⟨v, t, k, hone, hret⟩ := Prog.bind_ret.1 hret
    obtain ⟨b, t', k', hcreate, hone⟩ := Prog.bind_ret.1 hone
    obtain ⟨-, rfl, rfl⟩ := Prog.pure_ret.1 hone
    obtain ⟨hcount, hk⟩ := createAcceptSocket_accepts ls hl hcreate
    obtain ⟨hrest, hl'⟩ := ih hk hret
    refine ⟨?_, hl'⟩
    rw [hrest, hcount, List.length_cons]
    split <;> omega

theorem startAccepts_accepts (hl : .acceptSocket none ∉ l) (hret : startAccepts listenSockets s l = .ret u s' l') :
    s'.accepts ls = s.accepts ls + acceptDepth * listenSockets.count ls := by
  induction listenSockets generalizing s l with
  | nil =>
    obtain ⟨-, rfl, -⟩ := Prog.pure_ret.1 hret
    simp
  | cons ls' rest ih =>
    obtain ⟨v, t, k, hone, hret⟩ := Prog.bind_ret.1 hret
    obtain ⟨hcount, hk⟩ := startAccept_accepts ls hl hone
    rw [ih hk hret, hcount, List.length_range, List.count_cons]
    simp only [beq_iff_eq, acceptDepth]
    split <;> omega

/-! ## Completions -/

/-- The handlers of receives and sends start no accept. -/
theorem handlePacket_accepts {packet : Packet} (hkey : packet.op.key = some p)
    (hret : handlePacket packet s l = .ret u s' l') : s'.accepts ls = s.accepts ls := by
  rcases handlePacket_ret hret with ⟨ls, as, hop, -⟩ | ⟨q, c, -, -, -, rfl⟩ | ⟨q, sock, t, k, b, -, -, hsends, hrecv⟩ |
    ⟨q, sock, c, -, -, hsends⟩
  · simp [hop, Op.key] at hkey
  · exact accepts_congr (by rw [Server.outstanding_erase, Server.outstanding_stop])
  · rw [← hsends.accepts]
    obtain ⟨c, -, ⟨-, -, sock, -, rfl⟩ | ⟨-, -, rfl⟩⟩ := postRecv_ret hrecv
    · exact accepts_start _
    · rfl
  · exact hsends.accepts

/-- An accept that is handled takes one away; `CreateAcceptSocket` starts the next one if the session is registered. -/
theorem onAcceptComplete_accepts {ok : Bool} (hl : .acceptSocket none ∉ l)
    (hret : onAcceptComplete ls' as ok s l = .ret u s' l') :
    s'.accepts ls =
      s.accepts ls + if ls' = ls ∧ ok = true ∧ [.associate true, .wsaRecv true] <+: l then 1 else 0 := by
  rcases onAcceptComplete_ret hret with ⟨rfl, rfl⟩ | ⟨-, hno, rfl⟩ | ⟨rfl, k, b, rfl, hcreate⟩
  · rw [if_neg (by simp), Nat.add_zero]
    exact accepts_congr (s.outstanding_closesocket as)
  · rw [if_neg, Nat.add_zero]
    · exact accepts_congr (by rw [Server.outstanding_destroy, Server.outstanding_stop]; rfl)
    · rintro ⟨-, -, k, hk⟩
      exact hno k hk.symm
  · have hk : .acceptSocket none ∉ k := fun hmem =>
      hl (List.mem_cons_of_mem _ (List.mem_cons_of_mem _ hmem))
    have hemplace : (((s.make as).start (.recv s.count as)).emplace as s.count).accepts ls = s.accepts ls :=
      (accepts_congr (Server.outstanding_emplace ..)).trans (accepts_start _)
    rw [(createAcceptSocket_accepts _ hk hcreate).1, hemplace]
    simp

theorem accepts_step (h : ∀ ls ∈ listenSockets, s.accepts ls = acceptDepth) (hok : Supplied s x) (had : Admits s x)
    (hst : s.step x = some s') : ∀ ls ∈ listenSockets, s'.accepts ls = acceptDepth := by
  intro ls hls
  rw [← h ls hls]
  rcases Server.step_cases hst with ⟨k, ok, data, o, rfl, ho, -, rfl⟩ | ⟨answers, packet, packets, l', rfl, hp, hret⟩
  · exact (Server.outstanding_complete ho ok data).countP_eq _
  rw [accepts_perm (Server.outstanding_dequeue hp)]
  cases hop : packet.op with
  | accept ls' as =>
    simp only [handlePacket, hop] at hret
    obtain ⟨htrue, hl⟩ := had packet (by rw [hp]; rfl) (by rw [hop]; rfl)
    rw [onAcceptComplete_accepts hok hret]
    simp [htrue, hl, Op.isAccept]
  | recv key sock => exact handlePacket_accepts (p := key) (by rw [hop]; rfl) hret
  | send key sock => exact handlePacket_accepts (p := key) (by rw [hop]; rfl) hret

/-- **The number of pending accepts** of each listener is the depth, in a run in which every connection that
completes is registered. -/
theorem accepts_full (h : (acceptServer listenSockets).Reach (fun s x => Supplied s x ∧ Admits s x) s)
    (hls : ls ∈ listenSockets) : s.accepts ls = acceptDepth := by
  refine h.invariant (fun s => ∀ ls ∈ listenSockets, s.accepts ls = acceptDepth) ?_ ?_ ls hls
  · rintro s ⟨hnodup, l, l', hl, hret⟩ ls hls
    rw [startAccepts_accepts hl hret, List.count_eq_one_of_mem hnodup hls]
    rfl
  · rintro s x s' - hs hok hst
    exact accepts_step hs hok.1 hok.2 hst

/-- Any other completion is not made up for. -/
theorem accepts_lost {packet : Packet} {packets : List Packet} {answers : List Answer}
    (hst : s.step (.dequeue answers) = some s') (hok : Supplied s (.dequeue answers))
    (hp : s.packets = packet :: packets) (hop : packet.op = .accept ls as)
    (hno : ¬ (packet.ok = true ∧ [.associate true, .wsaRecv true] <+: answers)) : s'.accepts ls + 1 = s.accepts ls := by
  obtain ⟨k, ok, data, o, hx, -⟩ | ⟨answers', packet', packets', l', hx, hp', hret⟩ := Server.step_cases hst
  · cases hx
  cases hx
  obtain ⟨rfl, rfl⟩ := List.cons.inj (hp.symm.trans hp')
  simp only [handlePacket, hop] at hret
  rw [accepts_perm (Server.outstanding_dequeue hp), onAcceptComplete_accepts hok hret, if_neg (fun h => hno h.2), hop]
  simp [Op.isAccept]

/-- One listener, with its accepts. -/
def accepting : List Answer := [1, 2, 3, 4].map fun a => .acceptSocket (some a)

def oneListening : Server := (startAccepts [0] (.listening [0]) accepting).state

theorem oneListening_init : (acceptServer [0]).init oneListening :=
  ⟨by decide, accepting, [], by decide, rfl⟩

/-- A client connects and sends a byte. -/
theorem accepts_full_connect :
    ((acceptServer [0]).run oneListening [.complete 2 true [], .dequeue [.associate true, .wsaRecv true,
      .acceptSocket (some 5)], .complete 3 true [65], .dequeue [.wsaRecv true]]).map Server.outstanding =
        some [.accept 0 1, .accept 0 2, .accept 0 4, .accept 0 5, .recv 0 3] ∧
    ∀ s ∈ (acceptServer [0]).run oneListening [.complete 2 true [], .dequeue [.associate true, .wsaRecv true,
      .acceptSocket (some 5)], .complete 3 true [65], .dequeue [.wsaRecv true]], s.accepts 0 = acceptDepth := by
  refine ⟨by decide +kernel, fun s hs => ?_⟩
  have hinit : (acceptServer [0]).Reach (fun s x => Supplied s x ∧ Admits s x) oneListening := .init oneListening_init
  exact accepts_full (hinit.run_along hs (by decide +kernel)) List.mem_cons_self

/-- A client gives up while it connects. -/
theorem accepts_dry :
    ¬ ∀ listenSockets s, (acceptServer listenSockets).Reach Supplied s →
      ∀ ls ∈ listenSockets, s.accepts ls = acceptDepth := by
  intro hall
  have hrun : ((acceptServer [0]).run oneListening [.complete 0 false [], .dequeue []]).map
      (fun s => s.accepts 0) = some 3 := by
    decide +kernel
  obtain ⟨s, hs, hv⟩ := Option.map_eq_some_iff.1 hrun
  have hinit : (acceptServer [0]).Reach Supplied oneListening := .init oneListening_init
  have hfull := hall [0] s (hinit.run_along hs (by decide +kernel)) 0 List.mem_cons_self
  exact absurd (hfull.symm.trans hv) (by decide)

end TcpChat.Iocp
