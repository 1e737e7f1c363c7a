import TcpChat.SelectClient.Model

/-!
# When the loop of the `select` client ends

`ReceiveMsg` returns `0` when the server has closed the connection, `-1` after a hard error and `1` otherwise, and
`HandleReadyReceivers` tests for `-1` only.

* `Faithful` — what holds in every run: the bytes are printed as they are received, and the loop ends for no other
  reason than the end of the connection, an error of `recv` or `send`, or an error of `select`;
* `StopsAtEnd` — and when the connection has ended `select` is not called again;
* `stopsAtEnd_iff` — this is so just as long as `recv` does not answer `0`, or does but the `send` of the same iteration
  fails;
* `loopsForever` — after an answer `0` the loop goes on for ever.
-/

namespace TcpChat.SelectClient

open TcpChat.Lib TcpChat.Framing

/-- The bytes of the messages on `cout`. -/
def printed (cout : List Printed) : List UInt8 :=
  cout.flatMap fun
    | .msg b => b
    | .serverClosed => []

/-- What the loop does in any case. -/
structure Faithful (s : State) : Prop where
  running : Running s.client
  printed : printed s.client.cout = s.client.received
  exits : s.position = .left → s.client.ended = true ∨ s.client.broken = true

/-- The bytes are printed as they are received.  Once the end of the connection has been reported the loop ends, or is
before the `send` of the same iteration; it ends for no other reason but an error of `select`. -/
structure StopsAtEnd (s : State) : Prop where
  printed : printed s.client.cout = s.client.received
  stops : s.client.ended = true → s.position = .sending ∨ s.position = .left
  exits : s.position = .left → s.client.ended = true ∨ s.client.broken = true

/-- `select` has reported the socket as ready for writing. -/
def Position.Writable : Position → Prop
  | .receiving writable _ => writable = true
  | _ => False

instance : DecidablePred Position.Writable
  | .receiving _ _ => inferInstanceAs (Decidable (_ = _))
  | .top | .wait _ _ | .sending | .left => isFalse id

/-- If `recv` answers `0`, then a `send` follows in the same iteration and fails. -/
def Heeded (s : State) : Input → Prop
  | .recv .closed => s.position.Writable ∧ s.client.sendQ ≠ []
  | .send r => s.client.ended = true → Hard r
  | _ => True

instance (s : State) : DecidablePred (Heeded s)
  | .recv .closed => inferInstanceAs (Decidable (_ ∧ _))
  | .send _ => inferInstanceAs (Decidable (_ → _))
  | .recv (.bytes _) | .recv (.error _) | .enqueue _ | .build | .timeout | .failed _ | .ready _ _ => isTrue trivial

variable {c : Client} {p : Position} {s s' : State} {x : Input}

/-! ## What the loop does in any case -/

theorem printed_append {cout : List Printed} {i : Printed} {b received : List UInt8} (hi : printed [i] = b)
    (h : printed cout = received) : printed (cout ++ [i]) = received ++ b := by
  rw [← h, ← hi]
  exact List.flatMap_append

theorem Faithful.moves (h : Faithful ⟨p, c⟩) (hm : Moves c p x s') : Faithful s' := by
  refine ⟨hm.running h.running, ?_, ?_⟩
  · cases hm with
    | prints => exact printed_append (List.append_nil _) h.printed
    | closed => exact (printed_append (b := []) rfl h.printed).trans (List.append_nil _)
    | _ => exact h.printed
  · cases hm with
    | goesOn _ _ hq => exact fun hl => absurd hl hq
    | prints hq => exact fun hl => absurd hl hq
    | closed => exact fun _ => .inl rfl
    | sends => simp
    | sendsNothing => simp
    | recvFails => exact fun _ => .inl rfl
    | sendFails => exact fun _ => .inl rfl
    | selectFails => exact fun _ => .inr rfl

theorem step_faithful (h : Faithful s) (hst : step s x = some s') : Faithful s' := by
  cases x with
  | enqueue line =>
    cases hst
    exact ⟨⟨h.running.isActive, h.running.socket⟩, h.printed, h.exits⟩
  | _ => exact h.moves (loopStep_moves h.running hst)

/-! ## When the connection ends -/

/-- The part of `StopsAtEnd` that does not hold in every run. -/
def Stops (s : State) : Prop := s.client.ended = true → s.position = .sending ∨ s.position = .left

theorem Faithful.stops_iff (h : Faithful s) : StopsAtEnd s ↔ Stops s :=
  ⟨fun hs => hs.stops, fun hs => ⟨h.printed, hs, h.exits⟩⟩

theorem stops_of_not_ended (h : s.client.ended = false) : Stops s := by
  intro he
  rw [h] at he
  cases he

/-- As long as the loop stops, the end has not been reported where it goes on. -/
theorem Stops.not_ended (h : Stops ⟨p, c⟩) (hp : p ≠ .sending) (hl : p ≠ .left) : c.ended = false := by
  by_contra hn
  rcases h (by simpa using hn) with he | he
  · exact hp he
  · exact hl he

theorem Stops.moves (h : Stops ⟨p, c⟩) (hl : p ≠ .left) (hm : Moves c p x s') : Stops s' ↔ Heeded ⟨p, c⟩ x := by
  cases hm with
  | goesOn hp hx =>
    have hrun := h.not_ended hp hl
    refine iff_of_true (stops_of_not_ended hrun) ?_
    unfold Heeded
    split
    · exact absurd rfl hx
    · intro he
      exact absurd (hrun.symm.trans he) Bool.false_ne_true
    · trivial
  | prints => exact iff_of_true (stops_of_not_ended (h.not_ended (by simp) hl)) trivial
  | @closed w =>
    -- the iteration goes on to its `send`, or it ends and the loop does not
    by_cases hq : w = true ∧ c.sendQ ≠ []
    · simp [Stops, Heeded, Position.Writable, hq]
    · rw [if_neg hq]
      exact iff_of_false (by simp [Stops]) hq
  | sends => simp [Stops, Heeded, Hard]
  | sendsNothing hr => simp [Stops, Heeded, hr]
  | recvFails => exact iff_of_true (fun _ => .inr rfl) trivial
  | sendFails hr => exact iff_of_true (fun _ => .inr rfl) fun _ => hr
  | selectFails => exact iff_of_true (stops_of_not_ended (h.not_ended (by simp) hl)) trivial

theorem step_stopsAtEnd (h : Faithful s) (hs : StopsAtEnd s) (hst : step s x = some s') :
    Faithful s' ∧ (StopsAtEnd s' ↔ Heeded s x) := by
  have h' := step_faithful h hst
  refine ⟨h', h'.stops_iff.trans ?_⟩
  cases x with
  | enqueue line =>
    cases hst
    exact iff_of_true hs.stops trivial
  | _ =>
    have hl : s.position ≠ .left := by
      intro hl
      simp only [step, hl, loopStep, reduceCtorEq] at hst
    exact Stops.moves hs.stops hl (loopStep_moves h.running hst)

/-! ## Runs -/

/-- **The loop stops when the connection ends if and only if every answer `0` of `recv` is followed by an error of
`send` in the same iteration**, in every run. -/
theorem stopsAtEnd_iff {is : List Input} (hrun : client.run ⟨.top, .start⟩ is = some s) :
    client.Along Heeded ⟨.top, .start⟩ is ↔
      client.Along (fun s _ => StopsAtEnd s) ⟨.top, .start⟩ is ∧ StopsAtEnd s :=
  System.along_iff (fun _ _ _ hi hg hst => step_stopsAtEnd hi hg hst) hrun ⟨⟨rfl, rfl⟩, rfl, by simp⟩
    ⟨rfl, by simp [Client.start], by simp⟩

/-- A message, and a hard error of `recv` after it. -/
def messageThenError : List Input :=
  [.build, .ready true false, .recv (.bytes [104]), .recv (.error (.other 10054))]

theorem stopsAtEnd_iff_error :
    ∃ s, client.run ⟨.top, .start⟩ messageThenError = some s ∧ s.position = .left ∧ s.client.received = [104] ∧
      StopsAtEnd s := by
  obtain ⟨s, hs, hq⟩ := Option.map_eq_some_iff.1 (show (client.run ⟨.top, .start⟩ messageThenError).map (fun s =>
    (s.position, s.client.received)) = some (.left, [104]) by decide +kernel)
  simp only [Prod.mk.injEq] at hq
  exact ⟨s, hs, hq.1, hq.2, ((stopsAtEnd_iff hs).1 (by decide +kernel)).2⟩

/-- An iteration in which `recv` answers `0` and nothing is to be sent. -/
def closedTick : List Input := [.build, .ready true false, .recv .closed]

theorem run_closedTick {c : Client} (hactive : c.isActive = true) (hsocket : c.socket = true) :
    client.run ⟨.top, c⟩ closedTick =
      some ⟨.top, { c with cout := c.cout ++ [.serverClosed], ended := true }⟩ := by
  have hbuild : client.step ⟨.top, c⟩ .build = some ⟨.wait true (true && !c.sendQ.isEmpty), c⟩ := by
    show some _ = _
    rw [if_neg (by simp [hactive]), hsocket]
  have hready : ∀ wset, client.step ⟨.wait true wset, c⟩ (.ready true false) = some ⟨.receiving false 0, c⟩ := by
    intro wset
    show selected c true wset (.ready true false) = _
    unfold selected
    rw [if_neg (by simp [hactive])]
    simp
  rw [closedTick, System.run, hbuild, Option.bind_some, System.run, hready, Option.bind_some]
  rfl

/-- **After an answer `0` the loop goes on**, and as `recv` answers `0` again each time, it goes on for ever. -/
theorem loopsForever :
    ∃ s, client.run ⟨.top, .start⟩ closedTick = some s ∧ ¬ StopsAtEnd s ∧
      ∀ n, ∃ t, client.run s (List.replicate n closedTick).flatten = some t ∧ t.position = .top := by
  refine ⟨_, run_closedTick rfl rfl, fun h => ?_, fun n => ?_⟩
  · rcases h.stops rfl with hp | hp
    · cases hp
    · cases hp
  · have hall : ∀ n (c : Client), c.isActive = true → c.socket = true →
        ∃ t, client.run ⟨.top, c⟩ (List.replicate n closedTick).flatten = some t ∧ t.position = .top := by
      intro n
      induction n with
      | zero => exact fun c _ _ => ⟨⟨.top, c⟩, rfl, rfl⟩
      | succ n ih =>
        intro c hactive hsocket
        rw [List.replicate_succ, List.flatten_cons, System.run_append, run_closedTick hactive hsocket]
        exact ih _ hactive hsocket
    exact hall n _ rfl rfl

end TcpChat.SelectClient
