import TcpChat.Epoll.Wiring

/-!
# The `epoll` server and what its clients send

`Epoll.Server` takes the answers of `recv` as they come.  Here each connection has an `Inbox`, the bytes that have
arrived and that `recv` has not returned; data and FINs arrive at any moment, also between the calls of a handler, and
`epoll_wait` and `recv` answer accordingly.

* `Net` — the server with the inboxes of its sessions, by number, and `net`, its runs; `epoll_wait` may report an
  entry that has not been armed again;
* `step_server`, `server_reach` — without such reports these are runs of `server`;
* `plays_told` — the bytes that `recv` returns and those unread are the bytes that have arrived.
-/

namespace TcpChat.Epoll

open TcpChat.Lib TcpChat.EventLoop

/-! ## Inboxes -/

/-- The receiving side of a client's connection. -/
structure Inbox where
  unread : List UInt8
  /-- The client's FIN has arrived. -/
  fin : Bool
  /-- `epoll_wait` or a call has reported a connection error. -/
  broken : Bool
  /-- History: all the bytes that have arrived. -/
  arrived : List UInt8

/-- What happens on a connection while its event is handled. -/
inductive Move where
  | answer (a : Answer) | arrive (b : List UInt8) | finish
  deriving DecidableEq

def Move.answer? : Move → Option Answer
  | .answer a => some a
  | _ => none

namespace Inbox

def fresh : Inbox := ⟨[], false, false, []⟩

/-- Bytes arrive, before the FIN. -/
def arrive (k : Inbox) (b : List UInt8) : Option Inbox :=
  if k.fin then none else some { k with unread := k.unread ++ b, arrived := k.arrived ++ b }

/-- The answers that the calls on the connection may give: `recv` returns the unread bytes before it returns `0`. -/
def answer (k : Inbox) : Answer → Option Inbox
  | .recv (.bytes b) =>
    if b ≠ [] ∧ b <+: k.unread then some { k with unread := k.unread.drop b.length } else none
  | .recv .closed => if k.unread = [] ∧ k.fin = true then some k else none
  | .recv (.error e) =>
    if e.again then if k.unread = [] ∧ k.fin = false then some k else none else some { k with broken := true }
  | .send .closed => some { k with broken := true }
  | .send (.error e) => some (if e.again then k else { k with broken := true })
  | .send (.count _) | .accepted _ | .refused _ => some k

def move (k : Inbox) : Move → Option Inbox
  | .answer a => k.answer a
  | .arrive b => k.arrive b
  | .finish => some { k with fin := true }

def plays : List Move → Inbox → Option Inbox
  | [], k => some k
  | m :: ms, k => (k.move m).bind (plays ms)

/-- The event reports a connection error. -/
def reported (k : Inbox) (events : UInt32) : Inbox :=
  if events &&& (epollErr ||| epollHup) ≠ 0 then { k with broken := true } else k

/-- `EPOLLRDHUP` is reported once the FIN has arrived, together with `EPOLLIN` if there are unread bytes. -/
def Shows (k : Inbox) (events : UInt32) : Prop :=
  (events &&& epollRdHup ≠ 0 ↔ k.fin = true) ∧ (k.fin = true → k.unread ≠ [] → events &&& epollIn ≠ 0)

instance (k : Inbox) : DecidablePred k.Shows := fun _ => inferInstanceAs (Decidable (_ ∧ _))

end Inbox

/-! ## The server on its connections -/

/-- A reported event, with what happens on its connection until the handler returns. -/
structure Report where
  fd : Fd
  events : UInt32
  moves : List Move
  deriving DecidableEq

def Report.event (r : Report) : Event := ⟨r.fd, r.events, r.moves.filterMap Move.answer?⟩

structure Net where
  state : State
  inbox : ℕ → Inbox

/-- `epoll_wait` may report the event, if it does not matter whether the entry is armed. -/
def Asks (s : Server) (e : Event) : Prop :=
  match s.interest e.fd with
  | none => False
  | some r =>
    e.events ≠ 0 ∧ e.events &&& (epollEt ||| epollOneShot) = 0 ∧ e.events &&& ~~~(r.events ||| epollErr ||| epollHup) = 0

instance (s : Server) : DecidablePred (Asks s) := fun e =>
  match h : s.interest e.fd with
  | none => isFalse (by simp [Asks, h])
  | some r => decidable_of_iff (e.events ≠ 0 ∧ e.events &&& (epollEt ||| epollOneShot) = 0 ∧
      e.events &&& ~~~(r.events ||| epollErr ||| epollHup) = 0) (by simp [Asks, h])

/-- The handler of an event, which makes all the calls that are answered. -/
def handleReport (r : Report) (s : Server) (inbox : ℕ → Inbox) :
    Option (Outcome Server Answer Unit × (ℕ → Inbox)) :=
  match s.clients.lookup r.fd with
  | none => some (handleEvent r.event s, inbox)
  | some c => (((inbox c.id).reported r.events).plays r.moves).map fun k =>
      (handleEvent r.event s, Function.update inbox c.id k)

/-- The loop over the events. -/
def handleReports : List Report → Server → (ℕ → Inbox) → Option (Outcome Server Answer Unit × (ℕ → Inbox))
  | [], s, inbox => some (.ret () s [], inbox)
  | r :: rs, s, inbox =>
    match handleReport r s inbox with
    | some (.ret _ s' [], inbox') => handleReports rs s' inbox'
    | some (.halt h s', inbox') => some (.halt h s', inbox')
    | _ => none

namespace Net

inductive Input where
  /-- Bytes, or the FIN, arrive from the client of the descriptor. -/
  | arrive (fd : Fd) (b : List UInt8) | finish (fd : Fd)
  | interrupted | failed | events (batch : List Report) | stop (answers : List Answer)
  deriving DecidableEq

/-- Something happens on the connection of a client, while `Start` has not returned. -/
def external (n : Net) (fd : Fd) (m : Move) : Option Net :=
  match n.state.phase, n.state.server.clients.lookup fd with
  | .loop, some c | .stopping, some c =>
    ((n.inbox c.id).move m).map fun k => { n with inbox := Function.update n.inbox c.id k }
  | _, _ => none

/-- `epoll_wait` may report the event. -/
def Shown (n : Net) (r : Report) : Prop :=
  Asks n.state.server r.event ∧ ∀ c ∈ n.state.server.clients.lookup r.fd, (n.inbox c.id).Shows r.events

instance (n : Net) : DecidablePred n.Shown := fun _ => inferInstanceAs (Decidable (_ ∧ _))

def step (n : Net) : Input → Option Net
  | .arrive fd b => n.external fd (.arrive b)
  | .finish fd => n.external fd .finish
  | .events batch =>
    if n.state.phase = .loop ∧ (batch.map Report.fd).Nodup ∧ batch.length ≤ maxEvents ∧ ∀ r ∈ batch, n.Shown r then
      (handleReports batch (report n.state.server (batch.map Report.fd)) n.inbox).map fun (o, inbox) =>
        ⟨.of loopTest o, inbox⟩
    else none
  | .interrupted => (Epoll.step n.state .interrupted).map fun s => { n with state := s }
  | .failed => (Epoll.step n.state .failed).map fun s => { n with state := s }
  | .stop answers => (Epoll.step n.state (.stop answers)).map fun s => { n with state := s }

/-- The batch reports armed entries only. -/
def Armed (n : Net) : Input → Prop
  | .events batch => ∀ r ∈ batch, Reports n.state.server r.event
  | _ => True

instance (n : Net) : DecidablePred n.Armed
  | .events _ => inferInstanceAs (Decidable (∀ _ ∈ _, _))
  | .arrive _ _ | .finish _ | .interrupted | .failed | .stop _ => isTrue trivial

end Net

/-- The server and its connections, from the start of `RunLoop` on. -/
def net : System Net Net.Input where
  init n := ∃ listenSockets, n = ⟨start listenSockets, fun _ => .fresh⟩
  step := Net.step

/-! ## The server alone -/

theorem handleReport_event {r : Report} {s : Server} {inbox inbox' : ℕ → Inbox} {o : Outcome Server Answer Unit}
    (h : handleReport r s inbox = some (o, inbox')) : handleEvent r.event s = o := by
  unfold handleReport at h
  split at h
  · cases h
    rfl
  · obtain ⟨k, -, hk⟩ := Option.map_eq_some_iff.1 h
    exact congrArg Prod.fst hk

theorem handleReports_events {rs : List Report} {s : Server} {inbox inbox' : ℕ → Inbox}
    {o : Outcome Server Answer Unit} (h : handleReports rs s inbox = some (o, inbox')) :
    handleEvents (rs.map Report.event) s = o := by
  induction rs generalizing s inbox with
  | nil =>
    cases h
    rfl
  | cons r rs ih =>
    rw [handleReports] at h
    rw [List.map_cons, handleEvents]
    split at h
    next hr =>
      rw [handleReport_event hr]
      exact ih h
    next hr =>
      cases h
      rw [handleReport_event hr]
    next => cases h

/-- **Each step is one of the server**, or of a connection. -/
theorem step_server {n n' : Net} {x : Net.Input} (h : n.step x = some n') (ha : n.Armed x) :
    n'.state = n.state ∨ ∃ y, Epoll.step n.state y = some n'.state := by
  have hext : ∀ {fd m}, n.external fd m = some n' → n'.state = n.state := by
    intro fd m h
    unfold Net.external at h
    split at h
    · obtain ⟨k, -, rfl⟩ := Option.map_eq_some_iff.1 h
      rfl
    · obtain ⟨k, -, rfl⟩ := Option.map_eq_some_iff.1 h
      rfl
    · cases h
  cases x with
  | arrive fd b => exact .inl (hext h)
  | finish fd => exact .inl (hext h)
  | events batch =>
    simp only [Net.step, Option.ite_none_right_eq_some, Option.map_eq_some_iff] at h
    obtain ⟨⟨hloop, hnd, hlen, -⟩, ⟨o, inbox⟩, hrun, rfl⟩ := h
    refine .inr ⟨.events (batch.map Report.event), ?_⟩
    have hfds : (batch.map Report.event).map Event.fd = batch.map Report.fd := by
      rw [List.map_map]
      rfl
    obtain ⟨⟨phase, s⟩, inbox⟩ := n
    obtain rfl : phase = .loop := hloop
    rw [step, hfds, if_pos, handleReports_events hrun]
    refine ⟨hnd, by rwa [List.length_map], fun e he => ?_⟩
    obtain ⟨r, hr, rfl⟩ := List.mem_map.1 he
    exact ha r hr
  | interrupted | failed | stop answers =>
    obtain ⟨s, hs, rfl⟩ := Option.map_eq_some_iff.1 h
    exact .inr ⟨_, hs⟩

theorem server_reach {n : Net} (h : net.Reach Net.Armed n) : server.Reachable n.state := by
  refine h.invariant (fun n => server.Reachable n.state) ?_ fun n x n' _ ih ha hst => ?_
  · rintro n ⟨ls, rfl⟩
    exact .init ⟨ls, rfl⟩
  · rcases step_server hst ha with he | ⟨y, hy⟩
    · exact he ▸ ih
    · exact .step ih trivial hy

/-! ## What the moves do -/

/-- The bytes that the answers of `recv` return. -/
def received : List Answer → List UInt8
  | [] => []
  | .recv (.bytes b) :: l => b ++ received l
  | _ :: l => received l

namespace Inbox

variable {k k' : Inbox} {m : Move} {ms : List Move} {told : List UInt8} {a : Answer} {l l' : List Answer}

/-- Everything that has been received was told, and the rest is unread. -/
def Told (told : List UInt8) (k : Inbox) : Prop := told ++ k.unread = k.arrived

/-- The FIN has arrived and everything has been received. -/
def Over (k : Inbox) : Prop := k.unread = [] ∧ k.fin = true

/-- What an answer says: `recv` has returned some of the unread bytes, and otherwise they are left alone. -/
theorem answer_eq (h : k.answer a = some k') :
    received [a] ++ k'.unread = k.unread ∧ k'.fin = k.fin ∧ k'.arrived = k.arrived ∧
      (k'.broken = true ↔ k.broken = true ∨ a.Lost) ∧ (a = .recv .closed → k.Over) := by
  unfold answer at h
  split at h
  next b =>
    simp only [Option.ite_none_right_eq_some, Option.some.injEq] at h
    obtain ⟨⟨hne, rest, hrest⟩, rfl⟩ := h
    simp [received, ← hrest, Answer.Lost]
  next =>
    simp only [Option.ite_none_right_eq_some, Option.some.injEq] at h
    obtain ⟨hover, rfl⟩ := h
    simp [received, Answer.Lost, Over, hover]
  all_goals repeat' split at h
  all_goals simp only [Option.some.injEq, reduceCtorEq] at h
  all_goals subst h
  all_goals simp_all [received, Answer.Lost]

theorem move_told (h : k.move m = some k') (ht : Told told k) :
    Told (told ++ received m.answer?.toList) k' := by
  unfold Told at *
  cases m with
  | arrive b =>
    simp only [move, arrive, Option.ite_none_left_eq_some, Option.some.injEq] at h
    obtain ⟨-, rfl⟩ := h
    simp [Move.answer?, received, ← ht]
  | finish =>
    simp only [move, Option.some.injEq] at h
    subst h
    simpa [Move.answer?, received] using ht
  | answer a =>
    obtain ⟨hunread, -, harrived, -⟩ := answer_eq h
    rw [List.append_assoc, Move.answer?, Option.toList_some, hunread, harrived, ht]

theorem received_cons (a : Answer) (l : List Answer) : received (a :: l) = received [a] ++ received l := by
  cases a with
  | recv r => cases r <;> simp [received]
  | _ => rfl

theorem received_append (l l' : List Answer) : received (l ++ l') = received l ++ received l' := by
  induction l with
  | nil => rfl
  | cons a l ih => rw [List.cons_append, received_cons, received_cons a l, ih, List.append_assoc]

theorem answers_cons (m : Move) (ms : List Move) :
    (m :: ms).filterMap Move.answer? = m.answer?.toList ++ ms.filterMap Move.answer? := by
  cases m <;> rfl

/-- **What `recv` has returned and what is unread is what has arrived.** -/
theorem plays_told (h : plays ms k = some k') (ht : Told told k) :
    Told (told ++ received (ms.filterMap Move.answer?)) k' := by
  induction ms generalizing k told with
  | nil =>
    cases h
    simpa [received] using ht
  | cons m ms ih =>
    obtain ⟨k₁, hm, h⟩ := Option.bind_eq_some_iff.1 h
    rw [answers_cons, received_append, ← List.append_assoc]
    exact ih h (move_told hm ht)

theorem move_over (h : k.move m = some k') (ho : k.Over) : k'.Over ∧ received m.answer?.toList = [] := by
  cases m with
  | arrive b => simp [move, arrive, ho.2] at h
  | finish =>
    simp only [move, Option.some.injEq] at h
    subst h
    exact ⟨⟨ho.1, rfl⟩, rfl⟩
  | answer a =>
    obtain ⟨hunread, hfin, -⟩ := answer_eq h
    rw [ho.1, List.append_eq_nil_iff] at hunread
    exact ⟨⟨hunread.2, hfin.trans ho.2⟩, hunread.1⟩

/-- After the end nothing is received any more. -/
theorem plays_over (h : plays ms k = some k') (ho : k.Over) :
    k'.Over ∧ received (ms.filterMap Move.answer?) = [] := by
  induction ms generalizing k with
  | nil =>
    cases h
    exact ⟨ho, rfl⟩
  | cons m ms ih =>
    obtain ⟨k₁, hm, h⟩ := Option.bind_eq_some_iff.1 h
    obtain ⟨ho₁, hrec⟩ := move_over hm ho
    obtain ⟨ho', hrec'⟩ := ih h ho₁
    exact ⟨ho', by rw [answers_cons, received_append, hrec, hrec', List.nil_append]⟩

/-- `recv` returns `0` after everything has been received. -/
theorem plays_closed (h : plays ms k = some k') (hl : ms.filterMap Move.answer? = l ++ .recv .closed :: l') :
    k'.Over ∧ received l' = [] := by
  induction ms generalizing k l with
  | nil => simp at hl
  | cons m ms ih =>
    obtain ⟨k₁, hm, hms⟩ := Option.bind_eq_some_iff.1 h
    cases m with
    | arrive b | finish => exact ih hms hl
    | answer a =>
      rw [answers_cons, Move.answer?, Option.toList_some, List.singleton_append] at hl
      cases l with
      | nil =>
        obtain ⟨rfl, rfl⟩ := List.cons.inj hl
        have hm : k.answer (.recv .closed) = some k₁ := hm
        obtain ⟨hunread, hfin, -, -, hover⟩ := answer_eq hm
        obtain ⟨hu, hf⟩ := hover rfl
        exact plays_over hms ⟨(List.nil_append _).symm.trans (hunread.trans hu), hfin.trans hf⟩
      | cons b l => exact ih hms (List.cons.inj hl).2

/-- A connection that is lost stays so. -/
theorem plays_broken (h : plays ms k = some k')
    (hb : k.broken = true ∨ ∃ a ∈ ms.filterMap Move.answer?, a.Lost) : k'.broken = true := by
  induction ms generalizing k with
  | nil =>
    cases h
    simpa using hb
  | cons m ms ih =>
    obtain ⟨k₁, hm, h⟩ := Option.bind_eq_some_iff.1 h
    refine ih h ?_
    cases m with
    | arrive b =>
      simp only [move, arrive, Option.ite_none_left_eq_some, Option.some.injEq] at hm
      obtain ⟨-, rfl⟩ := hm
      exact hb
    | finish =>
      simp only [move, Option.some.injEq] at hm
      subst hm
      exact hb
    | answer a =>
      obtain ⟨-, -, -, hbroken, -⟩ := answer_eq hm
      rw [hbroken]
      rcases hb with hb | ⟨b, hmem, hlost⟩
      · exact .inl (.inl hb)
      · rw [answers_cons, Move.answer?, Option.toList_some, List.singleton_append, List.mem_cons] at hmem
        rcases hmem with rfl | hmem
        · exact .inl (.inr hlost)
        · exact .inr ⟨b, hmem, hlost⟩

end Inbox

end TcpChat.Epoll
