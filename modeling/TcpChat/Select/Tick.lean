import TcpChat.Select.Server

/-!
# One iteration of the `select` server

Removals are deferred: `HandleReadyClients` notes in `m_toClose` which clients have to go, and `RemoveClosedClients`
goes through these when the loop over `m_clients` has ended.

* `Tick` — one iteration of `RunEventLoop`;
* `Due`, `Marked` — what an iteration has still to receive, and whom it removes;
* `tick_spec` — an iteration receives from exactly the clients that `select` has reported, and removes exactly those
  whose `recv` has reported the end of the connection.
-/

namespace TcpChat.Select

open TcpChat.Lib TcpChat.Framing

/-- `recv` reports that the connection is closed or lost. -/
def Ends : RecvResult → Prop
  | .bytes _ => False
  | .closed => True
  | .error e => e.again = false

instance : DecidablePred Ends
  | .bytes _ => isFalse id
  | .closed => isTrue trivial
  | .error _ => inferInstanceAs (Decidable (_ = _))

/-- The step is the `recv` of the client of `sock`, in its `ReceiveMsg`. -/
def Receives (sock : Socket) (s : State) (x : Input) : Prop :=
  ∃ order todo r, s.position = .receiving order (sock :: todo) ∧ x = .recv r

/-- It reports the end of the connection. -/
def ReceivesEnd (sock : Socket) (s : State) (x : Input) : Prop :=
  ∃ order todo r, s.position = .receiving order (sock :: todo) ∧ x = .recv r ∧ Ends r

/-- The inputs `x :: is` make up one iteration of `RunEventLoop`, from one call of `select` to the next. -/
structure Tick (s t : State) (x : Input) (is : List Input) : Prop where
  top : s.position = .wait
  run : ∃ s₁, step s x = some s₁ ∧ server.run s₁ is = some t ∧ server.Along (fun s _ => s.position ≠ .wait) s₁ is
  bottom : t.position = .wait

/-- The ready clients that `HandleReadyClients` has before it. -/
def Position.todo : Position → List Socket
  | .receiving _ todo | .sending _ todo _ _ _ => todo
  | _ => []

/-- Nothing has been removed yet in this iteration. -/
def Position.Early : Position → Prop
  | .accepting _ _ | .receiving _ _ | .sending _ _ _ _ _ => True
  | _ => False

/-- The iteration is going to receive from the client of `sock`. -/
def Due (sock : Socket) (s : State) : Prop :=
  match s.position with
  | .accepting ready _ => sock ∈ ready
  | p => sock ∈ p.todo

/-- The iteration is going to remove the client of `sock`, or has removed it. -/
def Marked (sock : Socket) (s : State) : Prop :=
  match s.position with
  | .receiving _ _ | .sending _ _ _ _ _ => sock ∈ s.server.toClose
  | .removing todo => sock ∈ todo ∨ sock ∉ s.server.clients
  | .wait => sock ∉ s.server.clients
  | _ => False

/-- What an iteration keeps, for a client that was registered when it began. -/
structure InTick (sock : Socket) (s : State) : Prop where
  nodup : s.position.todo.Nodup
  present : s.position.Early → sock ∈ s.server.clients

variable {s s' : State} {x : Input} {sock sock' : Socket} {order todo recipients : List Socket} {msg rest : List UInt8}
  {sv : Server}

theorem mem_addClient {cs : Socket} (h : sock ∈ sv.clients) : sock ∈ (sv.addClient cs).clients := by
  unfold Server.addClient Table.emplace
  dsimp only
  split
  · exact h
  · exact (AList.mem_insert _).2 (.inr h)

theorem mem_modify {f : ClientSession → ClientSession} : sock ∈ (sv.modify sock' f).clients ↔ sock ∈ sv.clients := by
  rw [← AList.lookup_isSome, ← AList.lookup_isSome, Server.modify, Table.lookup_modify, Option.isSome_map]

theorem mem_erase : sock ∈ (sv.erase sock').clients ↔ sock ≠ sock' ∧ sock ∈ sv.clients := AList.mem_erase

theorem todo_nextRecipient : (nextRecipient order todo msg recipients).todo = todo := by
  cases recipients <;> rfl

/-- The loop over `m_clients` goes on, with the same clients and the same `m_toClose`. -/
theorem inTick_nextRecipient (order recipients : List Socket) (msg : List UInt8) (hnd : todo.Nodup)
    (h : sock ∈ sv.clients) :
    InTick sock ⟨nextRecipient order todo msg recipients, sv⟩ ∧
      (Due sock ⟨nextRecipient order todo msg recipients, sv⟩ ↔ sock ∈ todo) ∧
      (Marked sock ⟨nextRecipient order todo msg recipients, sv⟩ ↔ sock ∈ sv.toClose) := by
  refine ⟨⟨by rwa [todo_nextRecipient], fun _ => h⟩, ?_, ?_⟩
  · cases recipients <;> rfl
  · cases recipients <;> rfl

/-! ## Steps -/

/-- What a step does within an iteration. -/
structure TickStep (sock : Socket) (s : State) (x : Input) (s' : State) : Prop where
  inTick : InTick sock s'
  due : ¬ Due sock s' ↔ ¬ Due sock s ∨ Receives sock s x
  marked : Marked sock s' ↔ Marked sock s ∨ ReceivesEnd sock s x

/-- Another step than a `recv` of a `ReceiveMsg`. -/
theorem TickStep.of_position (hp : ∀ order todo, s.position ≠ .receiving order todo ∨ ∀ r, x ≠ .recv r)
    (hin : InTick sock s') (hdue : Due sock s' ↔ Due sock s) (hmarked : Marked sock s' ↔ Marked sock s) :
    TickStep sock s x s' := by
  refine ⟨hin, ?_, ?_⟩
  · rw [hdue, or_iff_left]
    rintro ⟨order, todo, r, hpos, rfl⟩
    rcases hp order (sock :: todo) with h | h
    · exact h hpos
    · exact h r rfl
  · rw [hmarked, or_iff_left]
    rintro ⟨order, todo, r, hpos, rfl, -⟩
    rcases hp order (sock :: todo) with h | h
    · exact h hpos
    · exact h r rfl

theorem receives_receiving_iff {r : RecvResult} :
    Receives sock ⟨.receiving order (sock' :: todo), sv⟩ (.recv r) ↔ sock = sock' := by
  constructor
  · rintro ⟨o, td, r', hp, -⟩
    simp only [Position.receiving.injEq, List.cons.injEq] at hp
    exact hp.2.1.symm
  · rintro rfl
    exact ⟨order, todo, r, rfl, rfl⟩

theorem receivesEnd_receiving_iff {r : RecvResult} :
    ReceivesEnd sock ⟨.receiving order (sock' :: todo), sv⟩ (.recv r) ↔ sock = sock' ∧ Ends r := by
  constructor
  · rintro ⟨o, td, r', hp, hr, hends⟩
    simp only [Position.receiving.injEq, List.cons.injEq] at hp
    exact ⟨hp.2.1.symm, Input.recv.inj hr ▸ hends⟩
  · rintro ⟨rfl, hends⟩
    exact ⟨order, todo, r, rfl, rfl, hends⟩

/-- Each ready client is received from once. -/
theorem due_receiving_iff {r : RecvResult} (hnot : sock' ∉ todo) :
    sock ∉ todo ↔ ¬ Due sock ⟨.receiving order (sock' :: todo), sv⟩ ∨
      Receives sock ⟨.receiving order (sock' :: todo), sv⟩ (.recv r) := by
  have hlist : Due sock ⟨.receiving order (sock' :: todo), sv⟩ ↔ sock = sock' ∨ sock ∈ todo := List.mem_cons
  rw [receives_receiving_iff, hlist, not_or]
  constructor
  · intro hn
    by_cases he : sock = sock'
    · exact .inr he
    · exact .inl ⟨he, hn⟩
  · rintro (⟨-, hn⟩ | rfl)
    · exact hn
    · exact hnot

theorem receiveMsg_tick {r : RecvResult} (h : InTick sock ⟨.receiving order (sock' :: todo), sv⟩)
    (hst : receiveMsg sv order sock' todo r = some s') :
    TickStep sock ⟨.receiving order (sock' :: todo), sv⟩ (.recv r) s' := by
  have hmem : sock ∈ sv.clients := h.present trivial
  obtain ⟨hnot, hnd⟩ := List.nodup_cons.1 h.nodup
  -- the answer is noted in `m_toClose` if it ends the connection
  have hquiet : ∀ toClose, (sock ∈ toClose ↔ sock ∈ sv.toClose ∨ sock = sock' ∧ Ends r) →
      TickStep sock ⟨.receiving order (sock' :: todo), sv⟩ (.recv r)
        ⟨.receiving order todo, { sv with toClose := toClose }⟩ := fun toClose ht =>
    ⟨⟨hnd, fun _ => hmem⟩, due_receiving_iff hnot, by rw [receivesEnd_receiving_iff]; exact ht⟩
  cases r with
  | bytes b =>
    simp only [receiveMsg] at hst
    split at hst
    · cases hst
    next c hc =>
      simp only [Option.ite_none_right_eq_some, Option.some.injEq] at hst
      obtain ⟨-, rfl⟩ := hst
      have hmem' : sock ∈ ({ sv with log := sv.log ++ [⟨c.id, b⟩] } : Server).clients := hmem
      obtain ⟨hin, hdue', hmarked⟩ := inTick_nextRecipient order (sv.recipients order c.id) b hnd hmem'
      refine ⟨hin, by rw [hdue']; exact due_receiving_iff hnot, ?_⟩
      rw [hmarked, receivesEnd_receiving_iff]
      exact (or_iff_left fun he => he.2).symm
  | closed =>
    cases hst
    exact hquiet _ (by simp [Ends])
  | error e =>
    simp only [receiveMsg] at hst
    split at hst
    next he =>
      cases hst
      exact hquiet sv.toClose (by simp [Ends, he])
    next he =>
      cases hst
      exact hquiet _ (by simp [Ends, he])

theorem sendMsg_tick {r : SendResult} (h : InTick sock ⟨.sending order todo msg (sock' :: recipients) rest, sv⟩)
    (hst : sendMsg sv order todo msg sock' recipients rest r = some s') :
    TickStep sock ⟨.sending order todo msg (sock' :: recipients) rest, sv⟩ (.send r) s' := by
  have hmem : ∀ f, sock ∈ (sv.modify sock' f).clients := fun f => mem_modify.2 (h.present trivial)
  have hnext : ∀ f, TickStep sock ⟨.sending order todo msg (sock' :: recipients) rest, sv⟩ (.send r)
      ⟨nextRecipient order todo msg recipients, sv.modify sock' f⟩ := by
    intro f
    obtain ⟨hin, hdue, hmarked⟩ := inTick_nextRecipient order recipients msg h.nodup (hmem f)
    exact .of_position (fun _ _ => .inl (by simp)) hin hdue hmarked
  cases r with
  | count n =>
    simp only [sendMsg, Option.ite_none_right_eq_some] at hst
    obtain ⟨-, hst⟩ := hst
    split at hst
    · cases hst
      exact .of_position (fun _ _ => .inl (by simp)) ⟨h.nodup, fun _ => hmem _⟩ Iff.rfl Iff.rfl
    · cases hst
      exact hnext _
  | closed => cases hst; exact hnext _
  | error e => cases hst; exact hnext _

theorem removeClient_tick (hst : removeClient sv sock' todo x = some s') :
    TickStep sock ⟨.removing (sock' :: todo), sv⟩ x s' := by
  -- the client of `sock'` is gone, or was not there
  have hgone : ∀ sv' : Server, (∀ g, g ∈ sv'.clients ↔ g ≠ sock' ∧ g ∈ sv.clients) →
      TickStep sock ⟨.removing (sock' :: todo), sv⟩ x ⟨.removing todo, sv'⟩ := by
    intro sv' hmem
    refine .of_position (fun _ _ => .inl (by simp)) ⟨List.nodup_nil, nofun⟩ Iff.rfl ?_
    simp only [Marked, hmem, List.mem_cons]
    tauto
  unfold removeClient at hst
  repeat' split at hst
  all_goals simp only [Option.some.injEq, reduceCtorEq] at hst
  all_goals subst hst
  · refine hgone _ fun g => (and_iff_right_of_imp ?_).symm
    rintro hg rfl
    have hsome := AList.lookup_isSome.2 hg
    rw [‹sv.clients.lookup g = none›] at hsome
    cases hsome
  · exact hgone _ fun g => mem_erase
  · exact .of_position (fun _ _ => .inl (by simp)) ⟨List.nodup_nil, nofun⟩ Iff.rfl Iff.rfl
  · exact hgone _ fun g => mem_erase
  · exact hgone _ fun g => mem_erase

/-- **A step within an iteration.** -/
theorem step_tick (h : InTick sock s) (hw : s.position ≠ .wait) (hst : step s x = some s') : TickStep sock s x s' := by
  obtain ⟨p, sv⟩ := s
  cases p with
  | wait => exact absurd rfl hw
  | accepting ready ls =>
    have hmem : sock ∈ sv.clients := h.present trivial
    cases ls <;> cases x <;> simp only [step, Option.ite_none_left_eq_some, Option.ite_none_right_eq_some,
      Option.some.injEq, reduceCtorEq] at hst
    case nil.loop order =>
      obtain ⟨horder, rfl⟩ := hst
      have hnd : order.Nodup := horder.nodup_iff.2 sv.clients.keys_nodup
      have hin : sock ∈ order := horder.mem_iff.2 hmem
      refine .of_position (fun _ _ => .inl (by simp)) ⟨hnd.filter _, fun _ => hmem⟩ ?_ ?_
      · simp [Due, Position.todo, hin]
      · simp [Marked]
    case cons.accepted l ls cs =>
      obtain ⟨-, rfl⟩ := hst
      exact .of_position (fun _ _ => .inl (by simp)) ⟨List.nodup_nil, fun _ => mem_addClient hmem⟩ Iff.rfl Iff.rfl
    case cons.refused l ls e =>
      subst hst
      exact .of_position (fun _ _ => .inl (by simp)) ⟨List.nodup_nil, fun _ => hmem⟩ Iff.rfl Iff.rfl
  | receiving order todo =>
    have hmem : sock ∈ sv.clients := h.present trivial
    cases todo <;> cases x <;> simp only [step, Option.some.injEq, reduceCtorEq] at hst
    case nil.done =>
      subst hst
      refine .of_position (fun _ _ => .inr (by simp)) ⟨List.nodup_nil, nofun⟩ Iff.rfl ?_
      simp [Marked, hmem]
    case cons.recv sock' todo r => exact receiveMsg_tick h hst
  | sending order todo msg recipients rest =>
    cases recipients <;> cases x <;> simp only [step, reduceCtorEq] at hst
    exact sendMsg_tick h hst
  | removing todo =>
    cases todo with
    | nil =>
      cases x <;> simp only [step, Option.some.injEq, reduceCtorEq] at hst
      subst hst
      refine .of_position (fun _ _ => .inl (by simp)) ⟨List.nodup_nil, nofun⟩ Iff.rfl ?_
      simp [Marked]
    | cons sock' todo => exact removeClient_tick hst
  | left => cases hst

/-! ## Iterations -/

/-- How an iteration begins. -/
theorem step_wait (hst : step s x = some s') (hw : s.position = .wait) :
    (∃ order set, x = .ready order set ∧ set ⊆ s.server.buildReadSet order ∧
      s' = ⟨.accepting set (s.server.listenSockets.filter (· ∈ set)), s.server⟩) ∨
    ((∀ order set, x ≠ .ready order set) ∧ s' = s) ∨ s' = ⟨.left, s.server⟩ := by
  obtain ⟨p, sv⟩ := s
  obtain rfl : p = .wait := hw
  cases x <;> simp only [step] at hst <;> split at hst
  all_goals simp only [Option.ite_none_right_eq_some, Option.some.injEq, reduceCtorEq] at hst
  all_goals try exact .inr (.inr hst.symm)
  case timeout.isFalse => exact .inr (.inl ⟨by simp, hst.symm⟩)
  case failed.isFalse e _ =>
    subst hst
    cases e.again <;> simp
  case ready.isFalse order set _ =>
    obtain ⟨⟨-, -, hsub⟩, rfl⟩ := hst
    exact .inl ⟨order, set, rfl, hsub, rfl⟩

theorem not_receives_wait (hw : s.position = .wait) : ¬ Receives sock s x := by
  rintro ⟨order, todo, r, hp, -⟩
  cases hw.symm.trans hp

/-- No step leaves the position at which the loop has ended. -/
theorem run_left {is : List Input} {t : State} (hrun : server.run s is = some t) (hl : s.position = .left) : t = s := by
  cases is with
  | nil => exact (Option.some.inj hrun).symm
  | cons x is =>
    obtain ⟨t', hst, -⟩ := Option.bind_eq_some_iff.1 hrun
    obtain ⟨p, sv⟩ := s
    obtain rfl : p = .left := hl
    cases hst

/-- A run that stays away from `select` and starts before it is empty. -/
theorem run_wait {is : List Input} {t : State} (hrun : server.run s is = some t)
    (ha : server.Along (fun s _ => s.position ≠ .wait) s is) (hw : s.position = .wait) : is = [] ∧ t = s := by
  cases is with
  | nil => exact ⟨rfl, (Option.some.inj hrun).symm⟩
  | cons x is => exact absurd hw ha.1

/-- The rest of an iteration that is handling the listeners. -/
theorem rest_spec {s t : State} {ready ls : List Socket} {is : List Input} (hp : s.position = .accepting ready ls)
    (hrun : server.run s is = some t) (ha : server.Along (fun s _ => s.position ≠ .wait) s is)
    (ht : t.position = .wait) (hsock : sock ∈ s.server.clients) :
    (server.Occurs (Receives sock) s is ↔ sock ∈ ready) ∧
      (sock ∉ t.server.clients ↔ server.Occurs (ReceivesEnd sock) s is) := by
  obtain ⟨p, sv⟩ := s
  obtain rfl : p = .accepting ready ls := hp
  have hin : InTick sock ⟨.accepting ready ls, sv⟩ := ⟨List.nodup_nil, fun _ => hsock⟩
  obtain ⟨-, hdue⟩ := System.occurs_iff (InTick sock) (fun s => ¬ Due sock s)
    (fun u y u' hu huw hst => ⟨(step_tick hu huw hst).inTick, (step_tick hu huw hst).due⟩) hrun ha hin
  obtain ⟨-, hmarked⟩ := System.occurs_iff (InTick sock) (Marked sock)
    (fun u y u' hu huw hst => ⟨(step_tick hu huw hst).inTick, (step_tick hu huw hst).marked⟩) hrun ha hin
  have hmem : Due sock ⟨.accepting ready ls, sv⟩ ↔ sock ∈ ready := Iff.rfl
  have hend : ¬ Due sock t := by simp [Due, ht, Position.todo]
  have hend' : Marked sock t ↔ sock ∉ t.server.clients := by simp [Marked, ht]
  refine ⟨⟨fun hocc => ?_, fun hready => ?_⟩, ?_⟩
  · by_contra hn
    -- nothing is received from a client that is not due
    have hnever : ∀ u y u', InTick sock u ∧ ¬ Due sock u → u.position ≠ .wait → step u y = some u' →
        (InTick sock u' ∧ ¬ Due sock u') ∧ (False ↔ False ∨ Receives sock u y) := by
      intro u y u' hu huw hst
      have hstep := step_tick hu.1 huw hst
      refine ⟨⟨hstep.inTick, hstep.due.2 (.inl hu.2)⟩, ?_⟩
      rw [false_or, false_iff]
      rintro ⟨o, td, r, hp, -⟩
      exact hu.2 (by simp [Due, hp, Position.todo])
    exact (System.occurs_iff _ (fun _ => False) hnever hrun ha ⟨hin, hn⟩).2.2 (.inr hocc)
  · exact (hdue.1 hend).resolve_left (not_not.2 (hmem.2 hready))
  · rw [← hend', hmarked]
    exact or_iff_right id

/-- **An iteration receives from exactly the registered clients that `select` reports, and removes exactly those whose
`recv` reports the end of the connection.** -/
theorem tick_spec {s t : State} {is : List Input} (h : Tick s t x is) (hsock : sock ∈ s.server.clients) :
    (server.Occurs (Receives sock) s (x :: is) ↔ ∃ order set, x = .ready order set ∧ sock ∈ set) ∧
      (sock ∉ t.server.clients ↔ server.Occurs (ReceivesEnd sock) s (x :: is)) := by
  obtain ⟨hw, ⟨s₁, hst, hrun, ha⟩, ht⟩ := h
  have hnot : ¬ Receives sock s x := not_receives_wait hw
  have hnotEnd : ¬ ReceivesEnd sock s x := fun ⟨order, todo, r, hp, hx, _⟩ => hnot ⟨order, todo, r, hp, hx⟩
  simp only [System.Occurs, hnot, hnotEnd, false_or]
  rw [show server.step s x = some s₁ from hst]
  dsimp only
  rcases step_wait hst hw with ⟨order, set, rfl, -, rfl⟩ | ⟨hne, rfl⟩ | rfl
  · obtain ⟨hreceives, hends⟩ := rest_spec rfl hrun ha ht hsock
    refine ⟨hreceives.trans ⟨fun hs => ⟨order, set, rfl, hs⟩, ?_⟩, hends⟩
    rintro ⟨order', set', he, hs⟩
    cases he
    exact hs
  · obtain ⟨rfl, rfl⟩ := run_wait hrun ha hw
    refine ⟨iff_of_false id ?_, iff_of_false (not_not.2 hsock) id⟩
    rintro ⟨order, set, rfl, -⟩
    exact hne order set rfl
  · rw [run_left hrun rfl] at ht
    cases ht

end TcpChat.Select
