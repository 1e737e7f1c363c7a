import TcpChat.BlockingServer.Incoming
import TcpChat.BlockingClient.Incoming
import TcpChat.Lib.Network

/-!
# A room: the blocking server and its clients

The programs of `NetworkBasics/blocking-multithreaded`, with a TCP connection between each client and its session, as in
`FramingRoom.Model`.

* `network`, `room` — the programs and the room;
* `Unfailing` — the server does not stop, and no `send` of the server fails;
* `server_reach`, `client_reach` — each program of the room makes a run of its own;
* `Linked` — what a client has been sent is what its session has written, and what a session reads is what its client has
  written.
-/

namespace TcpChat.BlockingRoom

open TcpChat.Lib

/-- The server and its clients on TCP connections. -/
def network : Network BlockingServer.Server (BlockingServer.Thread × BlockingServer.Input) BlockingClient.Client
    (BlockingClient.Thread × BlockingClient.Input) UInt8 where
  server := BlockingServer.server
  client := BlockingClient.client
  count := BlockingServer.Server.count
  accepted := fun i =>
    match i.2 with
    | .accepted stream => some stream
    | _ => none
  toClient := fun s r => (s.sess r).wire
  toServer := fun c => c.wire
  feed := BlockingServer.Server.incoming
  hear := BlockingClient.Client.incoming

abbrev Room := Network.State BlockingServer.Server BlockingClient.Client

/-- A step of a thread of one of the programs. -/
abbrev Move := Network.Move (BlockingServer.Thread × BlockingServer.Input) (BlockingClient.Thread × BlockingClient.Input)

/-- The server when it has started its threads, and the clients when they are connected. -/
def Room.start (acceptors : ℕ) : Room where
  server := .start acceptors
  clients := fun _ => .start []

/-- The room, from the start of the programs on. -/
def room : System Room Move := network.system fun R => ∃ n, R = Room.start n

theorem network_lawful : network.Lawful where
  feed_nil := BlockingServer.Server.incoming_nil
  feed_feed := BlockingServer.Server.incoming_incoming
  count_feed _ _ := rfl
  hear_nil := BlockingClient.Client.incoming_nil
  hear_hear := BlockingClient.Client.incoming_incoming

namespace Room

/-- The server goes on, and no `send` of it fails. -/
def Unfailing (R : Room) : Move → Prop
  | .server m => R.server.Unfailing m
  | .client _ _ => True

instance (R : Room) : DecidablePred R.Unfailing
  | .server m => inferInstanceAs (Decidable (R.server.Unfailing m))
  | .client _ _ => isTrue trivial

/-- The two ends of every connection. -/
structure Linked (R : Room) : Prop where
  stream : ∀ r, (R.clients r).stream = (R.server.sess r).wire
  reads : ∀ i < R.server.count, R.server.Reads i (R.clients i).wire

variable {R R' : Room}

/-- A step of the server. -/
theorem Linked.server_step {t : BlockingServer.Thread} {x : BlockingServer.Input} (hl : R.Linked) (hf : R.server.Fresh)
    (hm : R.server.Made) (hw : (R.server.sess R.server.count).wire = []) (hok : R.server.Unfailing (t, x))
    (h : network.step R (.server (t, x)) = some R') : R'.Linked := by
  obtain ⟨hconn, s, hst, rfl⟩ := Network.step_server h
  replace hst : R.server.step (t, x) = some s := hst
  refine ⟨fun r => ?_, fun i hi => ?_⟩
  · obtain ⟨out, hout⟩ := BlockingServer.Server.step_writes hst hw r
    simp only [network, hout, written_append]
    exact congrArg (· ++ out) (hl.stream r)
  · by_cases hlt : i < R.server.count
    · cases t with
      | accept k => exact BlockingServer.Server.acceptStep_reads (hl.reads i hlt) hlt hst
      | recv k =>
        by_cases hk : i = k
        · subst hk
          exact BlockingServer.Server.recvStep_reads (hl.reads i hlt) hst
        · obtain ⟨hcasts, hunread⟩ := BlockingServer.Server.recvStep_others hst hk
          have hreads := hl.reads i hlt
          rw [BlockingServer.Server.Reads] at hreads ⊢
          rw [hcasts, hunread, (BlockingServer.Server.step_pc hst).recv i (by simpa [eq_comm] using hk)]
          exact hreads
      | stop => exact hok.elim
    · -- the session has just been made
      have hcount : R.server.count < s.count := Nat.lt_of_le_of_lt (Nat.le_of_not_lt hlt) hi
      obtain ⟨k, stream, rfl, rfl⟩ := BlockingServer.Server.step_made hst hcount
      obtain ⟨hc, hreads⟩ := BlockingServer.Server.reads_new hm hf hst
      obtain rfl : i = R.server.count := by
        have : i < R.server.count + 1 := hc ▸ hi
        omega
      have hstream : stream = (R.clients R.server.count).wire := hconn stream rfl
      exact hstream ▸ hreads

/-- A step of a client. -/
theorem Linked.client_step {j : ℕ} {t : BlockingClient.Thread} {x : BlockingClient.Input} (hl : R.Linked)
    (h : network.step R (.client j (t, x)) = some R') : R'.Linked := by
  obtain ⟨c, hst, rfl⟩ := Network.step_client h
  replace hst : (R.clients j).step (t, x) = some c := hst
  obtain ⟨hstream, out, hout⟩ := BlockingClient.Client.step_writes hst
  have hnew : written (network.toServer (R.clients j)) (network.toServer c) = out := by simp [network, hout]
  rw [hnew]
  refine ⟨fun r => ?_, fun i hi => ?_⟩
  · by_cases hr : r = j
    · subst hr
      simp only [Function.update_self, hstream]
      exact hl.stream r
    · simp only [Function.update_of_ne hr]
      exact hl.stream r
  · have hlt : i < R.server.count := hi
    have hreads := hl.reads i hlt
    rw [BlockingServer.Server.Reads] at hreads
    by_cases hj : i = j
    · subst hj
      simp only [Function.update_self, hout, ← hreads]
      simp [network, Network.only, BlockingServer.Server.Reads, BlockingServer.Server.castsOf,
        BlockingServer.Server.incoming, BlockingServer.Session.incoming, hlt]
    · simp only [Function.update_of_ne hj, ← hreads]
      simp [network, Network.only, BlockingServer.Server.Reads, BlockingServer.Server.castsOf,
        BlockingServer.Server.incoming, BlockingServer.Session.incoming, hj]

end Room

variable {ok : Room → Move → Prop} {R : Room}

/-! ## The programs in the room -/

/-- The server in the room. -/
theorem server_reach (h : room.Reach Room.Unfailing R) :
    BlockingServer.server.Reach BlockingServer.Server.Unfailing R.server := by
  have hfeeds : network.Feeds BlockingServer.Server.Unfailing := fun s ⟨t, x⟩ s' f ho hst hf => by
    obtain ⟨x', ho', hx'⟩ := BlockingServer.Server.step_incoming hst ho hf
    exact ⟨(t, x'), ho', hx'⟩
  have hs := Network.server_reach network_lawful hfeeds (by rintro R ⟨n, rfl⟩; exact ⟨⟨n, rfl⟩, rfl⟩) (fun _ _ ho => ho) h
    (fun _ => []) fun _ _ => rfl
  rwa [network_lawful.feed_nil] at hs

/-- A client in the room. -/
theorem client_reach {i : ℕ} {okC : BlockingClient.Client → BlockingClient.Thread × BlockingClient.Input → Prop}
    (hC : network.Hears okC) (hok : ∀ R m, ok R (.client i m) → okC (R.clients i) m) (h : room.Reach ok R) :
    BlockingClient.client.Reach okC (R.clients i) := by
  have hc := Network.client_reach network_lawful hC (by rintro R ⟨n, rfl⟩ u; exact ⟨u, rfl⟩) hok h []
  rwa [network_lawful.hear_nil] at hc

theorem client_reachable (h : room.Reach ok R) (i : ℕ) : BlockingClient.client.Reachable (R.clients i) := by
  refine client_reach (fun c ⟨t, x⟩ c' u _ hst => ?_) (fun _ _ _ => trivial) h
  exact ⟨(t, x), trivial, BlockingClient.Client.step_incoming hst u⟩

theorem linked (h : room.Reach Room.Unfailing R) : R.Linked := by
  refine h.invariant Room.Linked ?_ fun R m R' hr ih hok hst => ?_
  · rintro R ⟨n, rfl⟩
    exact ⟨fun _ => rfl, fun i hi => absurd hi (Nat.not_lt_zero i)⟩
  · have hs := server_reach hr
    cases m with
    | server i =>
      have hwire := (BlockingServer.registered hs).wire R.server.count fun hmem =>
        Nat.lt_irrefl _ ((BlockingServer.registered hs).known _ hmem).1
      exact ih.server_step (BlockingServer.fresh hs) (BlockingServer.made hs) hwire hok hst
    | client r i => exact ih.client_step hst

end TcpChat.BlockingRoom
