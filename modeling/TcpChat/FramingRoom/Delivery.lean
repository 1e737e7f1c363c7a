import TcpChat.FramingServer.Input
import TcpChat.FramingServer.Output
import TcpChat.FramingClient.Output
import TcpChat.FramingClient.RxQueue
import TcpChat.FramingRoom.Model

/-!
# From the keyboard to the other screens

* `Apart` — the step takes no bytes of a socket while its other reader is inside a frame;
* `Linked` — what a client has been sent is what its session has written, and what a session reads is what its client has
  written;
* `printed_received` — a client prints messages that it has received, in order;
* `printed_typed` — what a client prints are lines that others have typed; those of one of them are in the order in which
  they were typed, and none of them comes twice.
-/

namespace TcpChat.FramingRoom

open TcpChat.Framing TcpChat.Lib

namespace Room

/-- A reader of a socket does not take bytes while the other one is inside a frame. -/
def Apart (R : Room) : Move → Prop
  | .server m => R.server.Apart m
  | .client i m => (R.clients i).Alone m

instance (R : Room) : DecidablePred R.Apart
  | .server m => inferInstanceAs (Decidable (R.server.Apart m))
  | .client i m => inferInstanceAs (Decidable ((R.clients i).Alone m))

/-- The two ends of every connection. -/
structure Linked (R : Room) : Prop where
  stream : ∀ r, (R.clients r).stream = (R.server.sess r).wire
  reads : ∀ i < R.server.count, R.server.Reads i (R.clients i).tx.wire

variable {R R' : Room} {t : FramingServer.Thread} {x : FramingServer.Input}

/-- A step of the server. -/
theorem Linked.server_step (hl : R.Linked) (hf : R.server.Fresh) (hw : ∀ i, WellFramed (R.clients i).tx.wire)
    (hok : R.server.Apart (t, x)) (h : network.step R (.server (t, x)) = some R') : R'.Linked := by
  obtain ⟨hconn, s, hst, rfl⟩ := Network.step_server h
  replace hst : R.server.step (t, x) = some s := hst
  refine ⟨fun r => ?_, fun i hi => ?_⟩
  · obtain ⟨out, hout⟩ := FramingServer.Server.step_wire hst hf r
    simp only [network, hout, written_append]
    exact congrArg (· ++ out) (hl.stream r)
  · by_cases hlt : i < R.server.count
    · exact FramingServer.Server.step_reads (hl.reads i hlt) hf hlt (hw i) hst hok
    · -- the session has just been made
      obtain hc | ⟨-, hc, stream, rfl, -⟩ := FramingServer.Server.step_made hst
      · exact absurd (hc ▸ hi) hlt
      · obtain rfl : i = R.server.count := by
          have : i < R.server.count + 1 := hc ▸ hi
          omega
        have hstream : stream = (R.clients R.server.count).tx.wire := hconn stream rfl
        exact FramingServer.Server.reads_new (hstream ▸ hst) hf hc

/-- A step of a client. -/
theorem Linked.client_step {j : ℕ} {t : FramingClient.Thread} {x : FramingClient.Input} (hl : R.Linked)
    (h : network.step R (.client j (t, x)) = some R') : R'.Linked := by
  obtain ⟨c, hst, rfl⟩ := Network.step_client h
  replace hst : (R.clients j).step (t, x) = some c := hst
  obtain ⟨out, hout⟩ := FramingClient.Client.step_wire hst
  have hnew : written (network.toServer (R.clients j)) (network.toServer c) = out := by simp [network, hout]
  rw [hnew]
  refine ⟨fun r => ?_, fun i hi => ?_⟩
  · by_cases hr : r = j
    · subst hr
      simp only [Function.update_self, (FramingClient.Client.step_data hst).stream]
      exact hl.stream r
    · simp only [Function.update_of_ne hr]
      exact hl.stream r
  · have hlt : i < R.server.count := hi
    by_cases hj : i = j
    · subst hj
      simp only [Function.update_self, hout]
      refine (hl.reads i hlt).append rfl rfl ?_
      simp [network, Network.only, FramingServer.Server.incoming, FramingServer.Session.incoming, hlt]
    · simp only [Function.update_of_ne hj]
      have hsame : (R.server.incoming (network.only R.server j out)).Reads i ((R.clients i).tx.wire ++ []) :=
        (hl.reads i hlt).append rfl rfl (by simp [Network.only, FramingServer.Server.incoming, FramingServer.Session.incoming, hj])
      rwa [List.append_nil] at hsame

end Room

variable {ok : Room → Move → Prop} {R : Room}

/-- What a client writes are frames of lines that have been typed. -/
theorem written_lines (h : room.Reach ok R) (i : ℕ) :
    ∃ ps : List (List UInt8), (∀ p ∈ ps, ValidPayload p) ∧ ps.Sublist (R.clients i).lines ∧
      (R.clients i).tx.wire <+: (ps.map frame).flatten := by
  have hc := client_reachable h i
  obtain ⟨ps, hps, hv, hw⟩ := (FramingClient.tx_emitted (FramingClient.tx_reach hc)).framed
  have hunder : ps <+: (R.clients i).tx.underway := by
    rw [FramingClient.Tx.underway, List.append_assoc]
    exact hps.trans (List.prefix_append _ _)
  have hadm := (FramingClient.ordered (FramingClient.tx_reach hc)).sublist
  exact ⟨ps, hv, (hunder.sublist.trans hadm).trans (FramingClient.admitted_lines hc), hw⟩

theorem linked (h : room.Reach Room.Apart R) : R.Linked := by
  refine h.invariant Room.Linked ?_ ?_
  · rintro R ⟨n, txMode, rxMode, rfl⟩
    exact ⟨fun _ => rfl, fun i hi => absurd hi (Nat.not_lt_zero i)⟩
  · rintro R m R' hr ih hok hst
    cases m with
    | server i =>
      refine ih.server_step (FramingServer.fresh (server_reachable hr)) (fun i => ?_) hok hst
      obtain ⟨ps, hv, -, hw⟩ := written_lines hr i
      exact ⟨ps, hv, hw⟩
    | client r i => exact ih.client_step hst

/-- A client prints what it has received, in order and nothing twice. -/
theorem printed_received {c : FramingClient.Client} (h : FramingClient.client.Reachable c) :
    c.printed.Sublist c.received := by
  obtain ⟨q, hq⟩ := FramingClient.monitored_of_reach h
  have hf := FramingClient.follows_of_reach hq
  have hinc := (List.pairwise_append.1 hf.kept.increasing).1
  have hsub := BoundedQueue.values_sublist hinc fun i hi => hf.kept.bound i (List.mem_append_left _ hi)
  rw [← hf.printed] at hsub
  rw [hf.received]
  exact ((List.sublist_append_left _ _).trans hsub).trans (List.sublist_append_left _ _)

/-- What a session has decoded are lines that its client has typed. -/
theorem decoded_typed (h : room.Reach Room.Apart R) (i : ℕ) :
    (R.server.sess i).decoded.Sublist (R.clients i).lines := by
  by_cases hi : i < R.server.count
  · obtain ⟨-, -, ps, hps, hsub, -, ⟨u, hu⟩, -⟩ := (linked h).reads i hi
    obtain ⟨qs, hqs, hlines, v, hv⟩ := written_lines h i
    obtain ⟨rs, rfl, -⟩ := frames_prefix (u := u ++ v) hps hqs (by rw [← List.append_assoc, hu, hv])
    exact (hsub.trans (List.sublist_append_left _ _)).trans hlines
  · rw [((FramingServer.fresh (server_reachable h)).blank i (by omega)).1]
    exact List.nil_sublist _

/-- A client receives the first messages that its session has handed to `send_frame`. -/
theorem received_handed (h : room.Reach Room.Apart R) (r : ℕ) :
    ∃ ms, ms <+: (R.server.sess r).handed ∧ (R.clients r).received.Sublist (ms.map FramingServer.Msg.body) := by
  obtain ⟨ms, hms, hv, u, hu⟩ := FramingServer.wire_messages (server_reachable h) r
  -- the client, with the bytes up to the end of the last frame still to come
  have hhears : network.Hears FramingClient.Client.Alone := fun c ⟨t, x⟩ c' u ho hst => by
    obtain ⟨x', ha, hx'⟩ := FramingClient.Client.step_incoming hst u
    exact ⟨(t, x'), ha ho, hx'⟩
  have hc : FramingClient.client.Reach FramingClient.Client.Alone ((R.clients r).incoming u) :=
    client_reach hhears (fun _ _ ho => ho) h u
  have hstream : ((R.clients r).incoming u).stream = ((ms.map FramingServer.Msg.body).map frame).flatten := by
    rw [← hu, ← (linked h).stream r]
    rfl
  obtain ⟨-, -, -, -, qs, -, hsub, -⟩ := FramingClient.splits hc (List.forall_mem_map.2 hv) hstream
  exact ⟨ms, hms, (List.sublist_append_left _ _).trans hsub⟩

/-- What the client `r` prints are messages of the others, and those of each of them are lines that it has typed, in the
order in which it has typed them. -/
def Room.PrintsTyped (R : Room) (r : ℕ) : Prop :=
  ∃ ms : List FramingServer.Msg, (R.clients r).printed = ms.map FramingServer.Msg.body ∧ (∀ m ∈ ms, m.src ≠ r) ∧
    ∀ i, ((ms.filter fun m => m.src = i).map FramingServer.Msg.body).Sublist (R.clients i).lines

/-- **From the keyboard to the other screens**, in every run in which the readers of a socket are apart. -/
theorem printed_typed (h : room.Reach Room.Apart R) (r : ℕ) : R.PrintsTyped r := by
  have hs := server_reachable h
  obtain ⟨ms, hms, hsub⟩ := received_handed h r
  obtain ⟨ms', hms', hprinted⟩ := List.sublist_map_iff.1 ((printed_received (client_reachable h r)).trans hsub)
  have hrec : ms <+: R.server.received r := by
    rw [FramingServer.Server.received, List.append_assoc]
    exact hms.trans (List.prefix_append _ _)
  refine ⟨ms', hprinted, fun m hm => FramingServer.received_src hs r m (hrec.subset (hms'.subset hm)), fun i => ?_⟩
  obtain ⟨k, n, hseg⟩ := FramingServer.log_prefix_segment hs hrec i
  have hdec : ((ms'.filter fun m => m.src = i).map FramingServer.Msg.body).Sublist (R.server.sess i).decoded := by
    refine ((hms'.filter _).map _).trans ?_
    rw [hseg]
    exact (List.drop_sublist _ _).trans (List.take_sublist _ _)
  exact hdec.trans (decoded_typed h i)

/-- A client types a line of one byte and writes its frame. -/
def typeByte : List (FramingClient.Thread × FramingClient.Input) :=
  [(FramingClient.Thread.main, FramingClient.Input.line [104])] ++
    List.replicate 7 (FramingClient.Thread.main, FramingClient.Input.go) ++
    List.replicate 6 (FramingClient.Thread.send, FramingClient.Input.go) ++
    [(FramingClient.Thread.send, FramingClient.Input.count 4), (FramingClient.Thread.send, FramingClient.Input.count 1)]

/-- Two clients connect, and the server passes the byte of the first one on to the second one. -/
def connectPass : List (FramingServer.Thread × FramingServer.Input) :=
  FramingServer.connect (frame [104]) ++ FramingServer.connect [] ++
    List.replicate 4 (FramingServer.Thread.send 1, FramingServer.Input.go) ++
    List.replicate 2 (FramingServer.Thread.recv 0, FramingServer.Input.go) ++ FramingServer.passByte ++
    List.replicate 2 (FramingServer.Thread.send 1, FramingServer.Input.go) ++
    [(FramingServer.Thread.send 1, FramingServer.Input.count 4), (FramingServer.Thread.send 1, FramingServer.Input.count 1)]

/-- A client receives a message of one byte and prints it. -/
def printByte : List (FramingClient.Thread × FramingClient.Input) :=
  [(FramingClient.Thread.recv, FramingClient.Input.go), (FramingClient.Thread.recv, FramingClient.Input.count 4),
      (FramingClient.Thread.recv, FramingClient.Input.count 1)] ++
    List.replicate 4 (FramingClient.Thread.recv, FramingClient.Input.go) ++
    List.replicate 6 (FramingClient.Thread.print, FramingClient.Input.go)

def greet : List Move :=
  typeByte.map (Network.Move.client 0 ·) ++ connectPass.map Network.Move.server ++
    printByte.map (Network.Move.client 1 ·)

theorem printed_typed_greet :
    (room.run (.start 1 (fun _ => .blockProducer) fun _ => .dropNewest) greet).map
        (fun R => ((R.clients 0).lines, (R.clients 1).printed)) = some ([[104]], [[104]]) ∧
      ∀ R ∈ room.run (.start 1 (fun _ => .blockProducer) fun _ => .dropNewest) greet, R.PrintsTyped 1 := by
  have hinit : room.Reach Room.Apart (.start 1 (fun _ => .blockProducer) fun _ => .dropNewest) := .init ⟨_, _, _, rfl⟩
  exact ⟨by decide +kernel, fun R hR => printed_typed (hinit.run_along hR (by decide +kernel)) 1⟩

end TcpChat.FramingRoom
