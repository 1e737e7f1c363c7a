import TcpChat.FramingClient.Rest
import TcpChat.FramingRoom.Delivery

/-!
# A room in which nothing is underway

* `AtRest` — nobody has left, and all that was typed has gone its way: no thread has a message in hand, no queue holds
  one, and no bytes are unread;
* `all_printed` — then every client has printed all lines of each of the others, from the first one on whose snapshot
  contained its session.
-/

namespace TcpChat.FramingServer

/-- The `SendLoop` waits for a message. -/
def SendPc.Waits : SendPc → Prop
  | .off | .lock | .pred | .park | .parked => True
  | _ => False

instance : DecidablePred SendPc.Waits := fun p =>
  decidable_of_iff (p matches .off | .lock | .pred | .park | .parked) (by cases p <;> simp [SendPc.Waits])

/-- The session is active, has read and decoded everything, and has nothing to send. -/
structure Server.SessionAtRest (s : Server) (i : ℕ) : Prop where
  active : (s.sess i).active = true
  valid : (s.sess i).valid = true
  recv : s.recv i = .frame .start
  unread : (s.sess i).unread = []
  txQueue : (s.sess i).txQueue = []
  send : (s.send i).Waits

instance (s : Server) (i : ℕ) : Decidable (s.SessionAtRest i) :=
  decidable_of_iff ((s.sess i).active = true ∧ (s.sess i).valid = true ∧ s.recv i = .frame .start ∧
      (s.sess i).unread = [] ∧ (s.sess i).txQueue = [] ∧ (s.send i).Waits)
    ⟨fun ⟨h1, h2, h3, h4, h5, h6⟩ => ⟨h1, h2, h3, h4, h5, h6⟩, fun ⟨h1, h2, h3, h4, h5, h6⟩ => ⟨h1, h2, h3, h4, h5, h6⟩⟩

end TcpChat.FramingServer

namespace TcpChat.FramingRoom

open TcpChat.Framing TcpChat.Lib

/-- Nothing is underway, between clients of modes that lose nothing. -/
structure Room.AtRest (R : Room) : Prop where
  stop : R.server.stop = .idle
  session : ∀ i < R.server.count, R.server.SessionAtRest i
  client : ∀ i < R.server.count, (R.clients i).AtRest
  txMode : ∀ i < R.server.count, (R.clients i).tx.txMode = .blockProducer
  rxMode : ∀ i < R.server.count, (R.clients i).rxMode = .disconnectOnOverflow

instance (R : Room) : Decidable R.AtRest :=
  decidable_of_iff (R.server.stop = .idle ∧ ∀ i < R.server.count, R.server.SessionAtRest i ∧ (R.clients i).AtRest ∧
      (R.clients i).tx.txMode = .blockProducer ∧ (R.clients i).rxMode = .disconnectOnOverflow)
    ⟨fun ⟨h1, h2⟩ => ⟨h1, fun i hi => (h2 i hi).1, fun i hi => (h2 i hi).2.1, fun i hi => (h2 i hi).2.2.1,
        fun i hi => (h2 i hi).2.2.2⟩,
      fun ⟨h1, h2, h3, h4, h5⟩ => ⟨h1, fun i hi => ⟨h2 i hi, h3 i hi, h4 i hi, h5 i hi⟩⟩⟩

variable {R : Room} {i r : ℕ}

/-- The session has decoded the lines of its client. -/
theorem decoded_lines (h : room.Reach Room.Apart R) (hq : R.AtRest) (hi : i < R.server.count) :
    (R.server.sess i).decoded = (R.clients i).lines := by
  have hs := hq.session i hi
  obtain ⟨hlines, hwire⟩ := (hq.client i hi).lines_written (client_reachable h i) (hq.txMode i hi)
  obtain ⟨-, -, ps, hps, -, hall, -, heq⟩ := (linked h).reads i hi
  have hw := heq (by rw [hs.recv]; trivial) hs.valid (by rw [hq.stop]; exact id)
  rw [hs.recv, hs.unread, hq.stop, hwire] at hw
  have hw' : ((R.clients i).lines.map frame).flatten = (ps.map frame).flatten := by
    simpa [FramingServer.StopPc.taken, FramingServer.RecvPc.taken, FrameReader.start, FrameReader.consumed] using hw
  rw [hall hq.stop, frames_inj hlines hps hw']

/-- The session has received from another one what that one has decoded from some message on. -/
theorem log_lines (h : room.Reach Room.Apart R) (hq : R.AtRest) (hi : i < R.server.count) (hr : r < R.server.count) :
    R.server.log i r = match (R.server.sess i).since r with
      | none => []
      | some k => (R.clients i).lines.drop k := by
  have hs := server_reachable h
  have hdel : R.server.log i r = R.server.due i r := by
    rcases FramingServer.delivered hs i r with heq | ⟨he, -⟩
    · exact heq
    · rw [FramingServer.Server.Ended, (hq.session r hr).active] at he
      cases he.2
  have hmsg : (R.server.recv i).msg = none := by rw [(hq.session i hi).recv]; rfl
  have hreached := FramingServer.Server.reached_of_not_snapped (r := r) (FramingServer.Server.not_snapped_of_msg hmsg)
  have hcount := (FramingServer.tally hs i).count
  rw [hmsg, if_pos rfl, Nat.add_zero] at hcount
  rewrite [hdel, FramingServer.Server.due, hreached, ← hcount, List.take_length, decoded_lines h hq hi]
  rfl

/-- The client has received what its session has received. -/
theorem received_all (h : room.Reach Room.Apart R) (hq : R.AtRest) (hr : r < R.server.count) :
    (R.clients r).received = (R.server.received r).map FramingServer.Msg.body := by
  have hs := hq.session r hr
  have hc := hq.client r hr
  have hsend := hs.send
  have hhand : (R.server.send r).popped = none := by
    cases hp : R.server.send r <;> simp_all [FramingServer.SendPc.Waits, FramingServer.SendPc.popped]
  have hidle : (R.server.send r).emitting = .idle := by
    cases hp : R.server.send r <;> simp_all [FramingServer.SendPc.Waits, FramingServer.SendPc.emitting]
  have hrec : R.server.received r = (R.server.sess r).handed := by
    simp [FramingServer.Server.received, hhand, hs.txQueue]
  have hemit := FramingServer.emitted (server_reachable h) r
  rw [FramingServer.Server.Written, hidle] at hemit
  obtain ⟨hv, hwire⟩ := hemit
  -- the client has read the whole stream
  have hstream := (linked h).stream r
  rw [hwire] at hstream
  obtain ⟨hv', heq⟩ := (FramingClient.intact (client_reachable h r)).read (by rw [hc.main]; trivial)
    (by rw [hc.recv]; trivial) ⟨_, hv, hstream ▸ List.prefix_refl _⟩
  rw [hstream, hc.recv, hc.unread] at heq
  rw [hrec]
  refine frames_inj hv' hv ?_
  simpa [FramingClient.RecvPc.taken, FrameReader.start, FrameReader.consumed] using heq.symm

/-- What the client `r` has printed are messages of the others, and those of each of them are all its lines, from the
first one on whose snapshot contained the session `r`. -/
def Room.AllPrinted (R : Room) (r : ℕ) : Prop :=
  ∃ ms : List FramingServer.Msg, (R.clients r).printed = ms.map FramingServer.Msg.body ∧ (∀ m ∈ ms, m.src ≠ r) ∧
    ∀ i < R.server.count, (ms.filter fun m => m.src = i).map FramingServer.Msg.body =
      match (R.server.sess i).since r with
      | none => []
      | some k => (R.clients i).lines.drop k

/-- **When nothing is underway, nothing is missing.** -/
theorem all_printed (h : room.Reach Room.Apart R) (hq : R.AtRest) (hr : r < R.server.count) : R.AllPrinted r := by
  refine ⟨R.server.received r, ?_, FramingServer.received_src (server_reachable h) r, fun i hi => log_lines h hq hi hr⟩
  rw [(hq.client r hr).printed_received (client_reachable h r) (hq.rxMode r hr), received_all h hq hr]

/-- The threads of the server and the clients go on until they wait. -/
def settle : List Move :=
  [.server (.recv 0, .go), .server (.recv 1, .go), .server (.recv 1, .go), .client 0 (.main, .go), .client 0 (.recv, .go),
    .client 1 (.recv, .go)]

theorem all_printed_greet :
    (room.run (.start 1 (fun _ => .blockProducer) fun _ => .disconnectOnOverflow) (greet ++ settle)).map
        (fun R => (R.server.count, (R.server.sess 0).since 1, (R.clients 1).printed)) = some (2, some 0, [[104]]) ∧
      ∀ R ∈ room.run (.start 1 (fun _ => .blockProducer) fun _ => .disconnectOnOverflow) (greet ++ settle),
        R.AllPrinted 1 := by
  have hinit : room.Reach Room.Apart (.start 1 (fun _ => .blockProducer) fun _ => .disconnectOnOverflow) :=
    .init ⟨_, _, _, rfl⟩
  have hrest : ∀ R ∈ room.run (.start 1 (fun _ => .blockProducer) fun _ => .disconnectOnOverflow) (greet ++ settle),
      R.AtRest ∧ 1 < R.server.count := by decide +kernel
  exact ⟨by decide +kernel, fun R hR =>
    all_printed (hinit.run_along hR (by decide +kernel)) (hrest R hR).1 (hrest R hR).2⟩

end TcpChat.FramingRoom
