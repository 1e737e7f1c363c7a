import TcpChat.Poll.Server

/-!
# The byte streams of the `poll` server

What `send` has accepted for a client and what is queued for it is, byte for byte, what has been broadcast to it.

* `Primitive` — the invariants that every change of the state keeps, which `step` then keeps (`Primitive.step`);
* `numbered` — the numbers by which `BroadcastMsg` tells the sessions apart are different;
* `Exact` — the bytes of a session are those that are due to it;
* `stream_exact` — they are in every state that is reached, in the middle of an iteration, too.
-/

namespace TcpChat.Poll

open TcpChat.Lib TcpChat.EventLoop

/-! ## Invariants of a run -/

/-- An invariant that every change of the state keeps. -/
structure Primitive (I : Server → Prop) : Prop where
  close : ∀ s fd, I s → I (s.close fd)
  modify : ∀ s fd, I s → I (s.modify fd fun c => { c with socket := none })
  accepted : ∀ s fd n, I s → I (s.modify fd (·.accepted n))
  erase : ∀ s fd, I s → I (s.erase fd)
  emplace : ∀ s cs, I s → ¬ s.IsOpen cs → I (s.emplace cs)
  broadcastMsg : ∀ s b sender, I s → I (broadcastMsg b sender s)
  halt : ∀ s, I s → I { s with running := false }
  clear : ∀ s, I s → I { s with clients := ∅ }
  finish : ∀ s, I s → I { s with listenSockets := [], running := false }

namespace Primitive

variable {I : Server → Prop} (hI : Primitive I)

include hI

theorem stop_session (fd : Fd) : Prog.Keeps I (ClientSession.stop fd) :=
  ClientSession.keeps_stop (fun s sock => hI.close s sock) fun s => hI.modify s fd

theorem closeClient (fd : Fd) : Prog.Keeps I (closeClient fd) := by
  have herase : Prog.Keeps I (do ClientSession.stop fd; Prog.modify (·.erase fd)) :=
    (hI.stop_session fd).bind fun _ => Prog.keeps_modify fun s => hI.erase s fd
  refine Prog.keeps_get.bind fun s => (Prog.keeps_ite herase (Prog.keeps_pure ())).bind fun _ => ?_
  exact Prog.keeps_modify fun s => hI.close s fd

theorem acceptAll : Prog.Keeps I acceptAll := by
  intro s l h
  fun_induction Poll.acceptAll s l with
  | case2 s cs l ho ih => exact ih (hI.emplace s cs h ho)
  | _ => exact h

theorem handleListeners : ∀ pfds, Prog.Keeps I (handleListeners pfds)
  | [] => Prog.keeps_pure ()
  | _ :: pfds =>
    Prog.keeps_ite (Prog.keeps_modify hI.halt)
      (Prog.keeps_ite (hI.acceptAll.bind fun _ => handleListeners pfds) (handleListeners pfds))

theorem handleClient (pfd : Pollfd) : Prog.Keeps I (handleClient pfd) := by
  have hclose := hI.closeClient pfd.fd
  have hread : ∀ this, Prog.Keeps I (read this) := fun this =>
    ClientSession.keeps_read fun s b _ _ => hI.broadcastMsg s b this
  have hwrite : Prog.Keeps I (write pfd.fd) := ClientSession.keeps_write fun s n => hI.accepted s pfd.fd n
  refine Prog.keeps_ite hclose (Prog.keeps_get.bind fun s => ?_)
  split
  · exact Prog.keeps_pure ()
  · refine (Prog.keeps_ite (hread _) (Prog.keeps_pure true)).bind fun readable => Prog.keeps_ite ?_ hclose
    refine (Prog.keeps_ite hwrite (Prog.keeps_pure true)).bind fun writable => ?_
    exact Prog.keeps_ite (Prog.keeps_pure ()) hclose

theorem stop : Prog.Keeps I stop := by
  refine Prog.keeps_get.bind fun s => Prog.keeps_ite (Prog.keeps_pure ()) ?_
  refine (Prog.keeps_each hI.stop_session _).bind fun _ => (Prog.keeps_modify hI.clear).bind fun _ => ?_
  refine (Prog.keeps_each (fun fd => Prog.keeps_modify fun s => hI.close s fd) _).bind fun _ => ?_
  exact Prog.keeps_modify hI.finish

/-- **An iteration keeps the invariant**, up to the point to which it has come. -/
theorem step {s s' : State} {x : Input} (h : I s.server) (hst : step s x = some s') : I s'.server := by
  unfold Poll.step at hst
  repeat' split at hst
  all_goals simp only [Option.some.injEq, reduceCtorEq] at hst
  all_goals subst hst
  · exact h
  · exact h
  · exact h
  · rw [State.of_server]
    exact ((hI.handleListeners _).bind fun _ => Prog.keeps_each hI.handleClient _) _ _ h
  · rw [State.of_server]
    exact hI.stop _ _ h

end Primitive

/-! ## The numbers of the sessions -/

theorem primitive_numbered : Primitive Numbered where
  close _ _ h := ⟨h.lt, h.inj⟩
  modify _ _ h := h.modify fun _ => rfl
  accepted _ _ _ h := h.modify fun _ => ClientSession.accepted_id
  erase _ fd h := h.erase fd
  emplace _ cs h _ := h.emplace cs
  broadcastMsg s b sender h := by
    refine h.update (fun k c => ?_) rfl fun _ => Table.lookup_update _
    split
    · exact ClientSession.postSend_id
    · rfl
  halt _ h := ⟨h.lt, h.inj⟩
  clear _ _ := ⟨fun k c hk => by simp at hk, fun k k' c c' hk => by simp at hk⟩
  finish _ h := ⟨h.lt, h.inj⟩

theorem numbered {s : State} (h : server.Reachable s) : Numbered s.server := by
  refine h.invariant (fun s => Numbered s.server) ?_ fun s x s' _ hs _ hst => primitive_numbered.step hs hst
  rintro s ⟨ls, rfl⟩
  exact numbered_start ls _

/-! ## The streams -/

/-- What has been broadcast to a session since it was made, by others. -/
def due (log : List Broadcast) (c : ClientSession) : List UInt8 :=
  ((log.drop c.since).filter fun m => m.sender ≠ c.id).flatMap (·.msg)

/-- What `send` has accepted and what is queued is what is due. -/
def Exact (log : List Broadcast) (c : ClientSession) : Prop :=
  c.since ≤ log.length ∧ c.sent ++ c.sendQueue.flatten = due log c

theorem Exact.accepted {log : List Broadcast} {c : ClientSession} (h : Exact log c) (n : ℕ) :
    Exact log (c.accepted n) := by
  refine ⟨by simpa using h.1, ?_⟩
  rw [ClientSession.accepted_stream, h.2, due, due, ClientSession.accepted_since, ClientSession.accepted_id]

/-- A broadcast adds its message to what is due to a session, unless the session is the sender. -/
theorem due_concat {log : List Broadcast} {c : ClientSession} (h : c.since ≤ log.length) (b : List UInt8)
    (sender : ℕ) : due (log ++ [⟨sender, b⟩]) c = due log c ++ if c.id ≠ sender then b else [] :=
  castSince_concat h b sender

theorem Exact.broadcast {log : List Broadcast} {c : ClientSession} (h : Exact log c) (b : List UInt8) (sender : ℕ) :
    Exact (log ++ [⟨sender, b⟩]) (if c.id ≠ sender then c.postSend b else c) := by
  have hlen : c.since ≤ (log ++ [(⟨sender, b⟩ : Broadcast)]).length := by
    rw [List.length_append]
    exact Nat.le_add_right_of_le h.1
  by_cases hs : c.id = sender
  · rw [if_neg (not_not.2 hs)]
    exact ⟨hlen, by rw [due_concat h.1, if_neg (not_not.2 hs), List.append_nil, h.2]⟩
  · have hdue := due_concat h.1 b sender
    rw [if_pos hs, ← h.2] at hdue
    rw [if_pos hs]
    refine ⟨by simpa using hlen, ?_⟩
    rw [ClientSession.postSend_sent, ClientSession.postSend_flatten, ← List.append_assoc, ← hdue, due, due,
      ClientSession.postSend_since, ClientSession.postSend_id]

/-- Every session has exactly what is due to it. -/
def AllExact (s : Server) : Prop := ∀ fd c, s.clients.lookup fd = some c → Exact s.log c

theorem allExact_modify {s : Server} {fd : Fd} {f : ClientSession → ClientSession} (h : AllExact s)
    (hf : ∀ c, Exact s.log c → Exact s.log (f c)) : AllExact (s.modify fd f) := by
  intro k c hk
  simp only [Server.modify, Table.lookup_modify, Option.map_eq_some_iff] at hk
  obtain ⟨c', hc', rfl⟩ := hk
  have hexact := h k c' hc'
  split
  · exact hf c' hexact
  · exact hexact

theorem primitive_allExact : Primitive AllExact where
  close _ _ h := h
  modify _ _ h := allExact_modify h fun _ hc => hc
  accepted _ _ n h := allExact_modify h fun _ hc => hc.accepted n
  erase s fd h := by
    intro k c hk
    exact h k c (Table.lookup_erase_eq_some.1 hk).2
  emplace s cs h _ := by
    intro k c hk
    rcases Table.lookup_emplace hk with hk | ⟨-, rfl⟩
    · exact h k c hk
    · exact ⟨le_rfl, by simp [due, Server.emplace]⟩
  broadcastMsg s b sender h := by
    intro k c hk
    simp only [broadcastMsg, Table.lookup_update, Option.map_eq_some_iff] at hk
    obtain ⟨c', hc', rfl⟩ := hk
    exact (h k c' hc').broadcast b sender
  halt _ h := h
  clear _ _ := by
    intro k c hk
    simp at hk
  finish _ h := h

/-- **No loss, no duplication, no reordering.** -/
theorem stream_exact {s : State} (h : server.Reachable s) {fd : Fd} {c : ClientSession}
    (hc : s.server.clients.lookup fd = some c) :
    c.sent ++ c.sendQueue.flatten =
      ((s.server.log.drop c.since).filter fun m => m.sender ≠ c.id).flatMap (·.msg) := by
  have hall : AllExact s.server := by
    refine h.invariant (fun s => AllExact s.server) ?_ fun s x s' _ hs _ hst => primitive_allExact.step hs hst
    rintro s ⟨ls, rfl⟩ k c hk
    simp [Server.start] at hk
  exact (hall fd c hc).2

/-- One client sends two bytes, and the socket of the other takes the first of them. -/
def splitRun : List Input :=
  [.ready [] [pollIn] [.accepted 5, .accepted 6, .refused .EAGAIN],
   .ready [5, 6] [0, pollIn, 0] [.recv (.bytes [104, 105]), .recv (.error .EAGAIN)],
   .ready [5, 6] [0, 0, pollOut] [.send (.count 1)]]

theorem stream_exact_split :
    (server.run ⟨.loop, .start [3] fun _ => none⟩ splitRun).map
      (fun s => (s.server.clients.lookup 6).map fun c => (c.sent, c.sendQueue)) = some (some ([104], [[105]])) ∧
    ∀ s ∈ server.run ⟨.loop, .start [3] fun _ => none⟩ splitRun, ∀ c ∈ s.server.clients.lookup 6,
      c.sent ++ c.sendQueue.flatten =
        ((s.server.log.drop c.since).filter fun m => m.sender ≠ c.id).flatMap (·.msg) := by
  refine ⟨by decide +kernel, fun s hs c hc => ?_⟩
  exact stream_exact (System.reachable_of_run ⟨[3], rfl⟩ hs) hc

end TcpChat.Poll
