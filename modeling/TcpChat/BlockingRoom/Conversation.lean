import TcpChat.BlockingRoom.Model

/-!
# The conversation in a room of the blocking server

There are no frames: the server broadcasts the results of its `recv`, and the clients show the results of theirs.  What is
kept are the bytes, their order, and the order of the broadcasts, which is one for all clients.

* `Says`, `Sees` — what of a client's lines has been broadcast, and what of the broadcasts a client shows;
* `conversation` — so it is in every run in which the server does not stop and no `send` of it fails;
* `all_shown` — when nothing is underway, and no `send` of a client has failed, nothing is missing.
-/

namespace TcpChat.BlockingRoom

open TcpChat.Lib

namespace Room

/-- The broadcasts of the session are the beginning of what its client has sent, and that are beginnings of its lines. -/
structure Says (R : Room) (i : ℕ) : Prop where
  casts : (R.server.castsOf i).flatten <+: (R.clients i).wire
  typed : (R.clients i).SentTyped

/-- What the client `r` shows are the broadcasts of the others since its registration, from the first one on and in the
order of all broadcasts; `Disconnect` may make one gap, which one more result of `recv` follows. -/
def Sees (R : Room) (r : ℕ) : Prop :=
  ∃ shown gap late : List (List UInt8), (R.clients r).printed ++ (R.clients r).recv.inHand = shown ++ late ∧
    late.length ≤ 1 ∧
    shown.flatten ++ gap.flatten ++ late.flatten <+: (R.server.castsTo r R.server.casts.length).flatten ∧
    (¬ (R.clients r).main.Disconnecting → gap = [] ∧ late = [])

/-- The server goes on, and no `send` fails. -/
def Lossless (R : Room) : Move → Prop
  | .server m => R.server.Unfailing m
  | .client r m => ¬ (R.clients r).SendFails m

instance (R : Room) : DecidablePred R.Lossless
  | .server m => inferInstanceAs (Decidable (R.server.Unfailing m))
  | .client r m => inferInstanceAs (Decidable (¬ (R.clients r).SendFails m))

/-- Nothing is underway. -/
structure AtRest (R : Room) : Prop where
  free : R.server.clientsMutex = none
  registered : ∀ i < R.server.count, i ∈ R.server.clients
  session : ∀ i < R.server.count, R.server.recv i = .recv ∧ (R.server.sess i).unread = []
  client : ∀ i < R.server.count, (R.clients i).main = .getline ∧ (R.clients i).recv = .recv ∧ (R.clients i).unread = []

instance (R : Room) : Decidable R.AtRest :=
  decidable_of_iff (R.server.clientsMutex = none ∧ ∀ i < R.server.count, i ∈ R.server.clients ∧
      (R.server.recv i = .recv ∧ (R.server.sess i).unread = []) ∧
      (R.clients i).main = .getline ∧ (R.clients i).recv = .recv ∧ (R.clients i).unread = [])
    ⟨fun ⟨h1, h2⟩ => ⟨h1, fun i hi => (h2 i hi).1, fun i hi => (h2 i hi).2.1, fun i hi => (h2 i hi).2.2⟩,
      fun ⟨h1, h2, h3, h4⟩ => ⟨h1, fun i hi => ⟨h2 i hi, h3 i hi, h4 i hi⟩⟩⟩

end Room

variable {R : Room} {r : ℕ}

/-- **The conversation**: every client sees one and the same sequence of broadcasts, without its own and from its
registration on, and what a client has contributed to it is the beginning of what it has sent. -/
theorem conversation (h : room.Reach Room.Unfailing R) :
    (∀ i < R.server.count, R.Says i) ∧ ∀ r ∈ R.server.clients, R.Sees r := by
  have hl := linked h
  refine ⟨fun i hi => ⟨?_, (BlockingClient.sends_beginnings (client_reachable h i)).sentTyped⟩, fun r hr => ?_⟩
  · have hreads := hl.reads i hi
    rw [BlockingServer.Server.Reads, List.append_assoc] at hreads
    exact ⟨_, hreads⟩
  · obtain ⟨shown, gap, late, hshown, hlate, hprefix, hearly⟩ :=
      (BlockingClient.splits (client_reachable h r)).showsStream
    rw [hl.stream r] at hprefix
    refine ⟨shown, gap, late, hshown, hlate, hprefix.trans ?_, fun hd => ⟨(hearly hd).1, (hearly hd).2.1⟩⟩
    exact ⟨_, (BlockingServer.streaming (server_reach h)).due r hr⟩

theorem unfailing_of_lossless (h : room.Reach Room.Lossless R) : room.Reach Room.Unfailing R :=
  h.mono fun _ m hm => by
    cases m with
    | server i => exact hm
    | client r i => trivial

/-- **When nothing is underway, nothing is missing.** -/
theorem all_shown (h : room.Reach Room.Lossless R) (hq : R.AtRest) :
    (∀ i < R.server.count, (R.server.castsOf i).flatten = (R.clients i).typed.flatten) ∧
      ∀ r < R.server.count, (R.clients r).printed.flatten = (R.server.castsTo r R.server.casts.length).flatten := by
  have hu := unfailing_of_lossless h
  have hl := linked hu
  refine ⟨fun i hi => ?_, fun r hr => ?_⟩
  · obtain ⟨hmain, -, -⟩ := hq.client i hi
    obtain ⟨hrecv, hunread⟩ := hq.session i hi
    have hc : BlockingClient.client.Reach (fun c m => ¬ c.SendFails m) (R.clients i) := by
      refine client_reach (fun c ⟨t, x⟩ c' u ho hst => ?_) (fun _ _ hm => hm) h
      exact ⟨(t, x), ho, BlockingClient.Client.step_incoming hst u⟩
    have hreads := hl.reads i hi
    rw [BlockingServer.Server.Reads, hrecv, hunread] at hreads
    rw [← (BlockingClient.sends_whole hc).whole.2 hmain, ← hreads]
    simp [BlockingServer.RecvPc.heard]
  · obtain ⟨hmain, hrecv, hunread⟩ := hq.client r hr
    have hout : ¬ (R.clients r).main.Disconnecting := by rw [hmain]; exact id
    obtain ⟨shown, gap, late, hshown, -, -, hearly⟩ := (BlockingClient.splits (client_reachable hu r)).showsStream
    obtain ⟨-, rfl, hstream⟩ := hearly hout
    have hhand : (R.clients r).recv.inHand = [] := by rw [hrecv]; rfl
    rw [hhand, List.append_nil, List.append_nil] at hshown
    rw [hunread, List.append_nil, hl.stream r] at hstream
    have hdue := (BlockingServer.streaming (server_reach hu)).due r (hq.registered r hr)
    rw [BlockingServer.Server.due_of_free hq.free, List.append_nil] at hdue
    rw [hshown, hstream, hdue]

/-! ## A run -/

/-- Two clients connect, and the first one types a line, which it sends in two pieces. -/
def typeLine : List Move :=
  (BlockingServer.connect []).map .server ++ (BlockingServer.connect []).map .server ++
    ([.client 0 (.main, .go), .client 0 (.main, .go), .client 0 (.main, .line [104, 105]), .client 0 (.main, .go),
      .client 0 (.main, .count 1), .client 0 (.main, .count 1), .client 0 (.main, .go)] : List Move)

/-- The server broadcasts the two bytes one by one. -/
def passByte : List Move :=
  ([.server (.recv 0, .go), .server (.recv 0, .count 1)] : List Move) ++
    List.replicate 4 (.server (.recv 0, .go) : Move) ++ ([.server (.recv 0, .count 1)] : List Move) ++
    List.replicate 4 (.server (.recv 0, .go) : Move)

/-- The second client shows them together, and everybody waits. -/
def showLine : List Move :=
  [.client 1 (.main, .go), .client 1 (.main, .go), .client 1 (.recv, .go), .client 1 (.recv, .count 2),
    .client 1 (.recv, .go), .client 1 (.recv, .go), .client 0 (.recv, .go), .server (.recv 0, .go),
    .server (.recv 1, .go), .server (.recv 1, .go)]

def chat : List Move := typeLine ++ ([.server (.recv 0, .go)] : List Move) ++ passByte ++ passByte ++ showLine

theorem conversation_chat :
    (room.run (.start 1) chat).map (fun R => (R.server.casts, (R.clients 1).printed)) =
        some ([(0, [104]), (0, [105])], [[104, 105]]) ∧
      ∀ R ∈ room.run (.start 1) chat, (∀ i < R.server.count, R.Says i) ∧ ∀ r ∈ R.server.clients, R.Sees r := by
  have hinit : room.Reach Room.Unfailing (.start 1) := .init ⟨1, rfl⟩
  exact ⟨by decide +kernel, fun R hR => conversation (hinit.run_along hR (by decide +kernel))⟩

theorem all_shown_chat :
    (room.run (.start 1) chat).map (fun R => (R.server.count, (R.clients 0).typed)) = some (2, [[104, 105]]) ∧
      ∀ R ∈ room.run (.start 1) chat, ∀ r < R.server.count,
        (R.clients r).printed.flatten = (R.server.castsTo r R.server.casts.length).flatten := by
  have hinit : room.Reach Room.Lossless (.start 1) := .init ⟨1, rfl⟩
  have hrest : ∀ R ∈ room.run (.start 1) chat, R.AtRest := by decide +kernel
  exact ⟨by decide +kernel, fun R hR => (all_shown (hinit.run_along hR (by decide +kernel)) (hrest R hR)).2⟩

end TcpChat.BlockingRoom
