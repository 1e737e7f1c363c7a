import TcpChat.EventRoom.Model

/-!
# The conversation in a room of an event-loop server

* `Conversation` — what is broadcast for a client is what it has typed, and what a client prints are, after the greeting,
  the broadcasts of the others, in the order that is the same for all;
* `room_converses` — so it is in every run, for the `poll` and for the `epoll` server;
* `room_completes` — when nothing is underway, nothing is missing.
-/

namespace TcpChat.EventRoom

open TcpChat.Lib TcpChat.EventLoop

/-- The bytes of the messages of the lines that have been typed. -/
def typed (c : PollClient.Client) : List UInt8 := c.lines.flatMap PollClient.message

namespace Room

/-- What has been broadcast for a client are its lines, as far as they have come; what a registered client has printed is the
greeting, followed by what the others have broadcast since its registration, as far as it has come. -/
structure Conversation (R : Room) : Prop where
  broadcast : R.busy = false → ∀ i < R.server.count, R.server.castsOf i <+: typed (R.clients i)
  seen : ∀ fd c, R.server.clients.lookup fd = some c →
    (R.clients c.id).cout <+: R.greeted c.id ++ castSince R.server.log c.since c.id
  greeted : ∀ i, R.greeted i <+: hello

/-- Nothing is underway: the server waits, all clients are registered and nothing is queued for them, and each client has
sent what has been typed, which the server has read, and has printed what it has been sent. -/
structure AtRest (R : Room) : Prop where
  waits : R.busy = false
  served : ∀ i < R.server.count, (R.server.session i).map ClientSession.sendQueue = some []
  read : ∀ i < R.server.count, (R.clients i).wire.length ≤ (R.server.castsOf i).length
  sent : ∀ i < R.server.count, (R.clients i).input = .getline ∧ (R.clients i).sendQueue = []
  printed : ∀ i < R.server.count, (R.clients i).unread = []

instance (R : Room) : Decidable R.AtRest :=
  decidable_of_iff (R.busy = false ∧ ∀ i < R.server.count, (R.server.session i).map ClientSession.sendQueue = some [] ∧
      (R.clients i).wire.length ≤ (R.server.castsOf i).length ∧
      ((R.clients i).input = .getline ∧ (R.clients i).sendQueue = []) ∧ (R.clients i).unread = [])
    ⟨fun ⟨h, ha⟩ => ⟨h, fun i hi => (ha i hi).1, fun i hi => (ha i hi).2.1, fun i hi => (ha i hi).2.2.1,
        fun i hi => (ha i hi).2.2.2⟩,
      fun h => ⟨h.waits, fun i hi => ⟨h.served i hi, h.read i hi, h.sent i hi, h.printed i hi⟩⟩⟩

variable {R : Room}

theorem Linked.converses (hl : R.Linked) (ha : R.server.Agreed) : R.Conversation := by
  refine ⟨fun hb i hi => (hl.reads hb i hi).trans ?_, fun fd c hc => ?_, hl.greeted⟩
  · rw [typed, ← (hl.exact i).sent, List.append_assoc]
    exact List.prefix_append _ _
  · have hprinted := (hl.exact c.id).printed
    rw [hl.stream fd c hc] at hprinted
    refine List.IsPrefix.trans ⟨_, hprinted⟩ ?_
    rw [← ha.stream fd c hc, ← List.append_assoc]
    exact List.prefix_append _ _

/-- Nothing is missing. -/
def Complete (R : Room) : Prop :=
  (∀ i < R.server.count, R.server.castsOf i = typed (R.clients i)) ∧
    ∀ i < R.server.count, ∃ c ∈ R.server.session i,
      (R.clients i).cout = R.greeted i ++ castSince R.server.log c.since i

theorem Linked.completes (hl : R.Linked) (ha : R.server.Agreed) (hrest : R.AtRest) : R.Complete := by
  refine ⟨fun i hi => ?_, fun i hi => ?_⟩
  · obtain ⟨hinput, hqueue⟩ := hrest.sent i hi
    have hsent := (hl.exact i).sent
    rw [hinput, hqueue] at hsent
    have hread := (hl.reads hrest.waits i hi).eq_of_length_le (hrest.read i hi)
    rw [hread, typed, ← hsent]
    simp [PollClient.InputPc.coming]
  · obtain ⟨c, hc, hqueue⟩ := Option.map_eq_some_iff.1 (hrest.served i hi)
    obtain ⟨rfl, fd, hfd⟩ := Server.session_some hc
    refine ⟨c, hc, ?_⟩
    have hprinted := (hl.exact c.id).printed
    rw [hrest.printed c.id hi, List.append_nil, hl.stream fd c hfd] at hprinted
    have hstream := ha.stream fd c hfd
    rw [hqueue, List.flatten_nil, List.append_nil] at hstream
    rw [hprinted, hstream]

end Room

theorem agreed_of_loop {ι : Type} {S : System State ι} (hS : Loop S) {R : Room} (h : (room S).Reachable R) :
    R.server.Agreed := by
  obtain ⟨r, hr, hR⟩ := hS.refines.reach (server_reachable h)
  exact hR.agreed hr

/-- The client `i` connects and polls. -/
def connects (ι : Type) (i : ℕ) : List (Move ι) := PollClient.connect.map (.client i)

/-- A line of one byte is typed, and sent with the end of the line. -/
def typesLine (ι : Type) (i : ℕ) : List (Move ι) :=
  List.map (.client i) ((PollClient.Thread.input, PollClient.Input.line [104]) ::
    List.replicate 3 (PollClient.Thread.input, PollClient.Input.go) ++
    (PollClient.Thread.net, PollClient.Input.timeout) :: List.replicate 4 (PollClient.Thread.net, PollClient.Input.go) ++
    (PollClient.Thread.net, PollClient.Input.ready Poll.pollOut) ::
      List.replicate 4 (PollClient.Thread.net, PollClient.Input.go) ++
    (PollClient.Thread.net, PollClient.Input.count 2) :: List.replicate 6 (PollClient.Thread.net, PollClient.Input.go))

/-- The client prints `n` bytes, and polls again. -/
def prints (ι : Type) (i n : ℕ) : List (Move ι) :=
  List.map (.client i) [(.net, .ready Poll.pollIn), (.net, .go), (.net, .count n), (.net, .error .EAGAIN)]

/-- The first client types a line, while the server accepts it with three bytes of the greeting, and another one without. -/
def chat {ι : Type} (accepts reads sends : ι) : List (Move ι) :=
  connects ι 0 ++ [Move.iterate accepts [3]] ++ typesLine ι 0 ++ ([.finish] : List (Move ι)) ++ connects ι 1 ++
    [Move.iterate reads [], Move.finish, Move.iterate sends [], Move.finish] ++ prints ι 0 3 ++ prints ι 1 2

def pollChat : List (Move Poll.Input) :=
  chat (.ready [] [Poll.pollIn] [.accepted 5, .accepted 6, .refused .EAGAIN])
    (.ready [5, 6] [0, Poll.pollIn, 0] [.recv (.bytes [104, 10]), .recv (.error .EAGAIN)])
    (.ready [5, 6] [0, 0, Poll.pollOut] [.send (.count 2)])

def epollChat : List (Move Epoll.Input) :=
  chat (.events [⟨3, epollIn, [.accepted 5, .accepted 6, .refused .EAGAIN]⟩])
    (.events [⟨5, epollIn, [.recv (.bytes [104, 10]), .recv (.error .EAGAIN)]⟩])
    (.events [⟨6, epollOut, [.send (.count 2)]⟩])

end TcpChat.EventRoom
