import TcpChat.FramingServer.Incoming
import TcpChat.FramingClient.Incoming
import TcpChat.Lib.Network

/-!
# A room: the framing server and its clients

The programs of `Protocols/Framing/Server` and `Protocols/Framing/Client`, with a TCP connection between each client and
its session.  A step of the room is a step of a thread of one of the programs; the bytes that it writes to a connection
are from then on among those that the other side may `recv`, in order.

* The clients have the numbers of their sessions: the order of `accept`.  A client may write before it is accepted.
* A connection may break at any time: a call of `recv` may report an error, or a closure when there is nothing to read.
* `network`, `room` — the programs and the room;
* `server_reachable`, `client_reach` — each program of the room has made a run of its own, whatever bytes are still to come.
-/

namespace TcpChat.FramingRoom

open TcpChat.Framing TcpChat.Lib

/-- The server and its clients on TCP connections. -/
def network : Network FramingServer.Server (FramingServer.Thread × FramingServer.Input) FramingClient.Client
    (FramingClient.Thread × FramingClient.Input) UInt8 where
  server := FramingServer.server
  client := FramingClient.client
  count := FramingServer.Server.count
  accepted := fun i =>
    match i.2 with
    | .accepted stream => some stream
    | _ => none
  toClient := fun s r => (s.sess r).wire
  toServer := fun c => c.tx.wire
  feed := FramingServer.Server.incoming
  hear := FramingClient.Client.incoming

abbrev Room := Network.State FramingServer.Server FramingClient.Client

/-- A step of a thread of one of the programs. -/
abbrev Move := Network.Move (FramingServer.Thread × FramingServer.Input) (FramingClient.Thread × FramingClient.Input)

/-- The programs when they have started their threads. -/
def Room.start (acceptors : ℕ) (txMode : ℕ → FramingClient.TxOverflowMode)
    (rxMode : ℕ → FramingClient.RxOverflowMode) : Room where
  server := .start acceptors
  clients := fun i => .start (txMode i) (rxMode i) []

/-- The room, from the start of the programs on. -/
def room : System Room Move := network.system fun R => ∃ n txMode rxMode, R = Room.start n txMode rxMode

variable {ok : Room → Move → Prop} {R : Room}

/-! ## The programs in the room -/

theorem network_lawful : network.Lawful where
  feed_nil := FramingServer.Server.incoming_nil
  feed_feed := FramingServer.Server.incoming_incoming
  count_feed _ _ := rfl
  hear_nil := FramingClient.Client.incoming_nil
  hear_hear := FramingClient.Client.incoming_incoming

/-- The server in the room. -/
theorem server_reachable (h : room.Reach ok R) : FramingServer.server.Reachable R.server := by
  have hfeeds : network.Feeds fun _ _ => True := fun s ⟨t, x⟩ s' f _ hst hf => by
    obtain ⟨x', hx'⟩ := FramingServer.Server.step_incoming hst hf
    exact ⟨(t, x'), trivial, hx'⟩
  have hs := Network.server_reach network_lawful hfeeds
    (by rintro R ⟨n, txMode, rxMode, rfl⟩; exact ⟨⟨n, rfl⟩, rfl⟩) (fun _ _ _ => trivial) h (fun _ => []) fun _ _ => rfl
  rwa [network_lawful.feed_nil] at hs

/-- **A client in the room** makes a run of its own, with any bytes still to come from the server. -/
theorem client_reach {i : ℕ} {okC : FramingClient.Client → FramingClient.Thread × FramingClient.Input → Prop}
    (hC : network.Hears okC) (hok : ∀ R m, ok R (.client i m) → okC (R.clients i) m) (h : room.Reach ok R)
    (u : List UInt8) : FramingClient.client.Reach okC ((R.clients i).incoming u) := by
  refine Network.client_reach network_lawful hC ?_ hok h u
  rintro R ⟨n, txMode, rxMode, rfl⟩ u
  exact ⟨txMode i, rxMode i, u, rfl⟩

theorem client_reachable (h : room.Reach ok R) (i : ℕ) : FramingClient.client.Reachable (R.clients i) := by
  have hhears : network.Hears fun _ _ => True := fun c ⟨t, x⟩ c' u _ hst => by
    obtain ⟨x', -, hx'⟩ := FramingClient.Client.step_incoming hst u
    exact ⟨(t, x'), trivial, hx'⟩
  have hc := client_reach (i := i) hhears (fun _ _ _ => trivial) h []
  rwa [FramingClient.Client.incoming_nil] at hc

end TcpChat.FramingRoom
