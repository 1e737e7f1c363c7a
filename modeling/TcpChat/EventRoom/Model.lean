import TcpChat.PollClient.Stream
import TcpChat.Relaying

/-!
# A room: an event-loop server and `poll` clients

The `poll` or the `epoll` server and any number of `poll` clients, with a TCP connection between each client and its
session.  The sessions have the numbers of the clients.

* An iteration of the server takes its time, and the clients go on during it: what it has sent may be read from its
  beginning on, and what it has read must have been sent by its end.
* A new session is sent the greeting, or the beginning of it that `send` has accepted.
* What has been sent to a session that is not registered any more is not known: it is anything.

* `room` — the steps of the whole;
* `Linked` — what a registered client has been sent is the greeting and what its session has sent, and what has been
  broadcast for a client is what it has sent.
-/

namespace TcpChat.PollClient.Client

open TcpChat.Lib

/-- The client when there is more to read. -/
def incoming (c : Client) (bytes : List UInt8) : Client :=
  { c with stream := c.stream ++ bytes, unread := c.unread ++ bytes }

variable {c c' : Client} {t : Thread} {x : Input}

theorem incoming_exact (h : c.Exact) (bytes : List UInt8) : (c.incoming bytes).Exact := by
  refine ⟨h.sent, ?_⟩
  rw [incoming, ← List.append_assoc, h.printed]

theorem step_exact (h : c.step (t, x) = some c') (he : c.Exact) : c'.Exact := by
  cases t with
  | net => exact netStep_exact h he
  | input => exact inputStep_exact h he

@[simp] theorem stopStep_stream (c : Client) (p : StopPc) : (c.stopStep p).1.stream = c.stream := by cases p <;> rfl

@[simp] theorem stopStep_wire (c : Client) (p : StopPc) : (c.stopStep p).1.wire = c.wire := by cases p <;> rfl

/-- What has been sent stays sent. -/
theorem step_writes (h : c.step (t, x) = some c') : c'.stream = c.stream ∧ c.wire <+: c'.wire := by
  cases t
  all_goals
    simp only [step, netStep, inputStep] at h
    repeat' split at h
    all_goals simp only [Option.some.injEq, reduceCtorEq] at h
    all_goals subst h
    all_goals first
      | exact ⟨rfl, List.prefix_rfl⟩
      | exact ⟨rfl, List.prefix_append _ _⟩
      | exact ⟨c.stopStep_stream _, by rw [c.stopStep_wire]⟩

end TcpChat.PollClient.Client

namespace TcpChat.EventLoop.Server

open TcpChat.Lib

/-- The session with the number `i`. -/
def session (s : Server) (i : ℕ) : Option ClientSession := (s.clients.entries.map (·.2)).find? (·.id = i)

/-- What `send` has accepted for the session `i`. -/
def sentTo (s : Server) (i : ℕ) : List UInt8 := ((s.session i).map ClientSession.sent).getD []

/-- What has been broadcast for the session `i`. -/
def castsOf (s : Server) (i : ℕ) : List UInt8 := (s.log.filter fun m => m.sender = i).flatMap (·.msg)

variable {s : Server} {i : ℕ} {fd : Fd} {c : ClientSession}

theorem session_some (h : s.session i = some c) : c.id = i ∧ ∃ fd, s.clients.lookup fd = some c := by
  obtain ⟨⟨fd, d⟩, hmem, rfl⟩ := List.mem_map.1 (List.mem_of_find?_eq_some h)
  exact ⟨by simpa using List.find?_some h, fd, AList.mem_lookup_iff.2 hmem⟩

theorem session_eq (h : Numbered s) (hc : s.clients.lookup fd = some c) : s.session c.id = some c := by
  cases hs : s.session c.id with
  | none =>
    have hmem : c ∈ s.clients.entries.map (·.2) := List.mem_map.2 ⟨⟨fd, c⟩, AList.mem_lookup_iff.1 hc, rfl⟩
    exact absurd (decide_eq_true rfl) (List.find?_eq_none.1 hs c hmem)
  | some d =>
    obtain ⟨hid, fd', hd⟩ := session_some hs
    obtain rfl := h.inj fd' fd d c hd hc hid
    exact hd.symm.trans hc

theorem sentTo_eq (h : Numbered s) (hc : s.clients.lookup fd = some c) : s.sentTo c.id = c.sent := by
  rw [sentTo, session_eq h hc]
  rfl

end TcpChat.EventLoop.Server

namespace TcpChat.EventRoom

open TcpChat.Lib TcpChat.EventLoop

/-- `hello`: "Welcome to the chat!" and the end of the line -/
def hello : List UInt8 :=
  [87, 101, 108, 99, 111, 109, 101, 32, 116, 111, 32, 116, 104, 101, 32, 99, 104, 97, 116, 33, 10]

/-- The programs, and what `send` has accepted of the greeting for each client. -/
structure Room where
  state : State
  /-- The iteration is going on. -/
  busy : Bool
  clients : ℕ → PollClient.Client
  greeted : ℕ → List UInt8

/-- An iteration of the server begins or ends, a thread of a client makes a step, or a client is sent the last bytes of a
session that has been closed.  `greets` says how much of the greeting each new client is sent. -/
inductive Move (ι : Type) where
  | iterate (x : ι) (greets : List ℕ)
  | finish
  | client (i : ℕ) (m : PollClient.Thread × PollClient.Input)
  | late (i : ℕ) (bytes : List UInt8)

variable {ι : Type}

namespace Room

def server (R : Room) : Server := R.state.server

/-- The greetings after an iteration that leads to `s`. -/
def greets (R : Room) (s : Server) (greets : List ℕ) (i : ℕ) : List UInt8 :=
  if R.server.count ≤ i ∧ i < s.count then hello.take (greets.getD (i - R.server.count) 0) else R.greeted i

/-- What the client `i` is sent in an iteration that leads to `s`. -/
def news (R : Room) (s : Server) (greets : List ℕ) (i : ℕ) : List UInt8 :=
  match s.session i with
  | none => []
  | some c =>
    if i < R.server.count then c.sent.drop (R.server.sentTo i).length else R.greets s greets i ++ c.sent

/-- All that has been broadcast has been sent. -/
def Read (R : Room) : Prop := ∀ i < R.server.count, R.server.castsOf i <+: (R.clients i).wire

instance (R : Room) : Decidable R.Read := inferInstanceAs (Decidable (∀ i < R.server.count, _))

/-- One step of the room, with the server `S`. -/
def step (S : System State ι) (R : Room) : Move ι → Option Room
  | .iterate x greets =>
    if R.busy then none
    else
      (S.step R.state x).map fun s =>
        { state := s, busy := true, clients := fun i => (R.clients i).incoming (R.news s.server greets i),
          greeted := R.greets s.server greets }
  | .finish => if R.busy ∧ R.Read then some { R with busy := false } else none
  | .client i m => ((R.clients i).step m).map fun c => { R with clients := Function.update R.clients i c }
  | .late i bytes =>
    if i < R.server.count ∧ R.server.session i = none then
      some { R with clients := Function.update R.clients i ((R.clients i).incoming bytes) }
    else none

/-- The server `s` and clients that have not been sent anything. -/
def start (s : State) : Room where
  state := s
  busy := false
  clients := fun _ => .start []
  greeted := fun _ => []

end Room

/-- The room of the server `S`, from the start of `RunLoop` on. -/
def room (S : System State ι) : System Room (Move ι) where
  init R := ∃ s, S.init s ∧ R = .start s
  step := Room.step S

namespace Room

/-- The two ends of every connection. -/
structure Linked (R : Room) : Prop where
  numbered : Numbered R.server
  stream : ∀ fd c, R.server.clients.lookup fd = some c → (R.clients c.id).stream = R.greeted c.id ++ c.sent
  fresh : ∀ i, R.server.count ≤ i → (R.clients i).stream = []
  greeted : ∀ i, R.greeted i <+: hello
  reads : R.busy = false → R.Read
  exact : ∀ i, (R.clients i).Exact

variable {S : System State ι} {R R' : Room}

theorem greets_prefix (h : ∀ i, R.greeted i <+: hello) (s : Server) (greets : List ℕ) (i : ℕ) :
    R.greets s greets i <+: hello := by
  unfold Room.greets
  split
  · exact List.take_prefix _ _
  · exact h i

/-- An iteration begins. -/
theorem Linked.iterate (hS : Loop S) (hl : R.Linked) {x : ι} {greets : List ℕ} {s : State}
    (hst : S.step R.state x = some s) :
    Linked { state := s, busy := true, clients := fun i => (R.clients i).incoming (R.news s.server greets i),
             greeted := R.greets s.server greets } := by
  have hlater : Later R.server s.server := hS.later hl.numbered hst
  refine ⟨hlater.numbered, fun fd c hc => ?_, fun i hi => ?_, greets_prefix hl.greeted _ _, nofun, fun i => ?_⟩
  · have hsession : s.server.session c.id = some c := Server.session_eq hlater.numbered hc
    simp only [PollClient.Client.incoming, news, hsession]
    by_cases hlt : c.id < R.server.count
    · obtain ⟨c₀, hc₀, hid, rest, hrest⟩ := hlater.session fd c hc hlt
      have hstream := hl.stream fd c₀ hc₀
      rw [hid] at hstream
      have hsent : R.server.sentTo c.id = c₀.sent := hid ▸ Server.sentTo_eq hl.numbered hc₀
      rw [if_pos hlt, hstream, hsent, ← hrest, List.drop_left, Room.greets, if_neg (by omega), List.append_assoc]
    · rw [if_neg hlt, hl.fresh c.id (by omega), List.nil_append]
  · have hnone : s.server.session i = none := by
      by_contra hne
      obtain ⟨c, hc⟩ := Option.ne_none_iff_exists'.1 hne
      obtain ⟨hid, fd, hfd⟩ := Server.session_some hc
      have hlt := hlater.numbered.lt fd c hfd
      have hi : s.server.count ≤ i := hi
      omega
    simp only [PollClient.Client.incoming, news, hnone, List.append_nil]
    exact hl.fresh i (hlater.count.trans hi)
  · exact PollClient.Client.incoming_exact (hl.exact i) _

/-- A client makes a step. -/
theorem Linked.client (hl : R.Linked) {i : ℕ} {t : PollClient.Thread} {x : PollClient.Input} {c : PollClient.Client}
    (hst : (R.clients i).step (t, x) = some c) : Linked { R with clients := Function.update R.clients i c } := by
  obtain ⟨hstream, hwire⟩ := PollClient.Client.step_writes hst
  have hstreams : ∀ j, (Function.update R.clients i c j).stream = (R.clients j).stream := fun j => by
    by_cases hj : j = i
    · rw [hj, Function.update_self, hstream]
    · rw [Function.update_of_ne hj]
  refine ⟨hl.numbered, fun fd d hd => (hstreams _).trans (hl.stream fd d hd), fun j hj => (hstreams j).trans (hl.fresh j hj),
    hl.greeted, fun hb j hj => ?_, fun j => ?_⟩
  · have hread := hl.reads hb j hj
    show R.server.castsOf j <+: (Function.update R.clients i c j).wire
    by_cases hji : j = i
    · subst hji
      rw [Function.update_self]
      exact hread.trans hwire
    · rwa [Function.update_of_ne hji]
  · by_cases hji : j = i
    · subst hji
      simpa only [Function.update_self] using PollClient.Client.step_exact hst (hl.exact j)
    · simpa only [Function.update_of_ne hji] using hl.exact j

/-- The last bytes of a closed session. -/
theorem Linked.late (hl : R.Linked) {i : ℕ} (hi : i < R.server.count) (hnone : R.server.session i = none)
    (bytes : List UInt8) :
    Linked { R with clients := Function.update R.clients i ((R.clients i).incoming bytes) } := by
  have hothers : ∀ j, j ≠ i → Function.update R.clients i ((R.clients i).incoming bytes) j = R.clients j :=
    fun j hj => Function.update_of_ne hj ..
  refine ⟨hl.numbered, fun fd d hd => ?_, fun j hj => ?_, hl.greeted, fun hb j hj => ?_, fun j => ?_⟩
  · have hne : d.id ≠ i := by
      rintro rfl
      rw [Server.session_eq hl.numbered hd] at hnone
      cases hnone
    simpa only [hothers _ hne] using hl.stream fd d hd
  · have hne : j ≠ i := by
      rintro rfl
      exact absurd hi (Nat.not_lt_of_le hj)
    simpa only [hothers _ hne] using hl.fresh j hj
  · have hread := hl.reads hb j hj
    show R.server.castsOf j <+: (Function.update R.clients i ((R.clients i).incoming bytes) j).wire
    by_cases hji : j = i
    · subst hji
      rwa [Function.update_self]
    · rwa [Function.update_of_ne hji]
  · by_cases hji : j = i
    · subst hji
      simpa only [Function.update_self] using PollClient.Client.incoming_exact (hl.exact j) bytes
    · simpa only [hothers _ hji] using hl.exact j

end Room

theorem linked {S : System State ι} (hS : Loop S) {R : Room} (h : (room S).Reachable R) : R.Linked := by
  refine h.invariant Room.Linked ?_ fun R m R' _ hl _ hst => ?_
  · rintro R ⟨s, hs, rfl⟩
    obtain ⟨listenSockets, interest, he⟩ := hS.init s hs
    have hserver : (Room.start s).server = .start listenSockets interest := he
    refine ⟨hserver ▸ numbered_start _ _, fun fd c hc => ?_, fun _ _ => rfl, fun _ => List.nil_prefix, fun _ i hi => ?_,
      fun _ => ⟨rfl, rfl⟩⟩
    · rw [hserver] at hc
      simp [Server.start] at hc
    · rw [hserver] at hi
      exact absurd hi (Nat.not_lt_zero i)
  · replace hst : R.step S m = some R' := hst
    cases m with
    | iterate x greets =>
      simp only [Room.step, Option.ite_none_left_eq_some, Option.map_eq_some_iff] at hst
      obtain ⟨-, s, hs, rfl⟩ := hst
      exact hl.iterate hS hs
    | finish =>
      simp only [Room.step, Option.ite_none_right_eq_some, Option.some.injEq] at hst
      obtain ⟨⟨-, hread⟩, rfl⟩ := hst
      exact ⟨hl.numbered, hl.stream, hl.fresh, hl.greeted, fun _ => hread, hl.exact⟩
    | client i m =>
      simp only [Room.step, Option.map_eq_some_iff] at hst
      obtain ⟨c, hc, rfl⟩ := hst
      exact hl.client hc
    | late i bytes =>
      simp only [Room.step, Option.ite_none_right_eq_some, Option.some.injEq] at hst
      obtain ⟨⟨hi, hnone⟩, rfl⟩ := hst
      exact hl.late hi hnone bytes

/-- The server in the room makes a run of its own. -/
theorem server_reachable {S : System State ι} {R : Room} (h : (room S).Reachable R) : S.Reachable R.state := by
  refine h.invariant (fun R => S.Reachable R.state) ?_ fun R m R' _ ih _ hst => ?_
  · rintro R ⟨s, hs, rfl⟩
    exact .init hs
  · replace hst : R.step S m = some R' := hst
    cases m with
    | iterate x greets =>
      simp only [Room.step, Option.ite_none_left_eq_some, Option.map_eq_some_iff] at hst
      obtain ⟨-, s, hs, rfl⟩ := hst
      exact ih.step trivial hs
    | finish | late i bytes =>
      simp only [Room.step, Option.ite_none_right_eq_some, Option.some.injEq] at hst
      obtain ⟨-, rfl⟩ := hst
      exact ih
    | client i m =>
      simp only [Room.step, Option.map_eq_some_iff] at hst
      obtain ⟨c, -, rfl⟩ := hst
      exact ih

end TcpChat.EventRoom
