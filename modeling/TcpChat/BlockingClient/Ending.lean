import TcpChat.BlockingClient.Stream

/-!
# How the blocking client ends

`SendMessages` ends at the end of the input, and at the first line that is read after `ReceiveMessages` has found that the
server has disconnected.

* `Closing` — one of the two has happened;
* `rank` — a bound on the number of steps from there on;
* `run_returns` — every run from there on is as short, and when nothing can move any more, `Run` has returned.
-/

namespace TcpChat.BlockingClient

open TcpChat.Lib

/-- The steps that the main thread has before it, without those of `GracefulShutDown` that get bytes. -/
def MainPc.rank : MainPc → ℕ
  | .store => 0 | .spawn => 0
  | .send left => left.length + 8 | .getline => 7 | .test _ => 6 | .stop => 5
  | .shutdown => 4 | .drain => 3 | .close => 2 | .join => 1 | .done => 0

/-- The steps that `ReceiveMessages` has before it when the next `recv` fails. -/
def RecvPc.rank : RecvPc → ℕ
  | .off => 0 | .print _ => 5 | .test => 4 | .recv => 3 | .notice => 2 | .store => 1 | .done => 0

namespace Client

/-- The input has ended, or the client is not active any more. -/
structure Closing (c : Client) : Prop where
  created : c.main ≠ .store ∧ c.main ≠ .spawn
  closing : c.active = true → c.main = .stop

instance (c : Client) : Decidable c.Closing :=
  decidable_of_iff ((c.main ≠ .store ∧ c.main ≠ .spawn) ∧ (c.active = true → c.main = .stop))
    ⟨fun ⟨h1, h2⟩ => ⟨h1, h2⟩, fun ⟨h1, h2⟩ => ⟨h1, h2⟩⟩

/-- A bound on the number of steps that are left: every result of `recv` has one byte at least. -/
def rank (c : Client) : ℕ := 3 * c.unread.length + c.main.rank + c.recv.rank

/-- `Run` has returned. -/
structure Returned (c : Client) : Prop where
  main : c.main = .done
  recv : c.recv = .done
  socket : c.valid = false
  inactive : c.active = false

variable {c c' : Client} {t : Thread} {x : Input}

/-- What `recv` takes makes the rest of the stream shorter. -/
theorem recvCall_shorter {wants : ℕ} {msg : List UInt8} (h : c.recvCall wants x = some (some msg)) :
    (c.unread.drop msg.length).length + 1 ≤ c.unread.length := by
  cases x with
  | count n =>
    simp only [recvCall, Option.ite_none_right_eq_some, Option.some.injEq] at h
    obtain ⟨⟨-, h0, -, hu⟩, rfl⟩ := h
    rw [List.length_take, Nat.min_eq_left hu, List.length_drop]
    omega
  | go | line msg | eof | failed => simp [recvCall] at h

theorem mainStep_rank (hc : c.Closing) (h : c.mainStep x = some c') : c'.Closing ∧ c'.rank < c.rank := by
  obtain ⟨⟨hstore, hspawn⟩, hclosing⟩ := hc
  cases hp : c.main with
  | store => exact absurd hp hstore
  | spawn => exact absurd hp hspawn
  | send left =>
    have hin : c.active ≠ true := fun ha => by simp [hp] at hclosing; simp [hclosing] at ha
    cases left <;> cases x <;> simp only [mainStep, hp, Option.some.injEq, Option.ite_none_right_eq_some, reduceCtorEq] at h
    case nil.go =>
      subst h
      exact ⟨⟨⟨by simp, by simp⟩, fun ha => absurd ha hin⟩, by simp [rank, MainPc.rank, hp]⟩
    case cons.count b left n =>
      obtain ⟨⟨-, h0, hn⟩, rfl⟩ := h
      refine ⟨⟨⟨by simp, by simp⟩, fun ha => absurd ha hin⟩, ?_⟩
      simp only [rank, MainPc.rank, hp, accept, List.length_drop]
      omega
    case cons.failed b left =>
      subst h
      refine ⟨⟨⟨by simp, by simp⟩, fun ha => absurd ha hin⟩, ?_⟩
      simp only [rank, MainPc.rank, hp, List.length_cons]
      omega
  | drain =>
    have hin : c.active ≠ true := fun ha => by simp [hp] at hclosing; simp [hclosing] at ha
    simp only [mainStep, hp] at h
    split at h
    · cases h
    · cases h
      exact ⟨⟨⟨by simp, by simp⟩, fun ha => absurd ha hin⟩, by simp [rank, MainPc.rank, hp]⟩
    · cases h
      have hlt := recvCall_shorter (c := c) ‹_›
      refine ⟨⟨⟨hstore, hspawn⟩, hclosing⟩, ?_⟩
      simp only [rank, take]
      omega
  | test msg =>
    cases x <;> simp only [mainStep, hp, reduceCtorEq] at h
    split at h
    · have := hclosing ‹_›
      simp [hp] at this
    · cases h
      exact ⟨⟨⟨by simp, by simp⟩, fun _ => rfl⟩, by simp [rank, MainPc.rank, hp]⟩
  | getline | stop | shutdown | close | join | done =>
    cases x <;> simp only [mainStep, hp, reduceCtorEq] at h
    all_goals try split at h
    all_goals cases h
    all_goals refine ⟨⟨⟨by simp, by simp⟩, ?_⟩, by simp [rank, MainPc.rank, hp]⟩
    all_goals simp_all

theorem recvStep_rank (hc : c.Closing) (h : c.recvStep x = some c') : c'.Closing ∧ c'.rank < c.rank := by
  cases hp : c.recv with
  | recv =>
    simp only [recvStep, hp] at h
    split at h
    · cases h
    · cases h
      exact ⟨⟨hc.created, hc.closing⟩, by simp [rank, RecvPc.rank, hp]⟩
    · cases h
      have hlt := recvCall_shorter (c := c) ‹_›
      refine ⟨⟨hc.created, hc.closing⟩, ?_⟩
      simp only [rank, RecvPc.rank, hp, take]
      omega
  | test =>
    cases x <;> simp only [recvStep, hp, Option.some.injEq, reduceCtorEq] at h
    subst h
    refine ⟨⟨hc.created, hc.closing⟩, ?_⟩
    cases ha : c.active <;> simp [rank, RecvPc.rank, hp]
  | off | print msg | notice | store | done =>
    cases x <;> simp only [recvStep, hp, Option.some.injEq, reduceCtorEq] at h
    all_goals subst h
    all_goals refine ⟨?_, by simp [rank, RecvPc.rank, hp]⟩
    all_goals first
      | exact ⟨hc.created, hc.closing⟩
      | exact ⟨hc.created, by simp⟩

theorem step_rank (hc : c.Closing) (h : c.step (t, x) = some c') : c'.Closing ∧ c'.rank < c.rank := by
  cases t with
  | main => exact mainStep_rank hc h
  | recv => exact recvStep_rank hc h

/-- What holds of the threads and of the socket in every state. -/
structure Placed (c : Client) : Prop where
  recv : c.recv = .off → c.main = .store ∨ c.main = .spawn
  joined : c.main = .done → c.recv = .done
  socket : c.valid = false ↔ c.main = .join ∨ c.main = .done
  inactive : c.main.Disconnecting → c.active = false

theorem Placed.step (hq : c.Placed) (h : c.step (t, x) = some c') : c'.Placed := by
  obtain ⟨hrecv, hjoined, hsocket, hinactive⟩ := hq
  cases t <;> simp only [Client.step, mainStep, recvStep] at h
  all_goals repeat' split at h
  all_goals simp only [Option.some.injEq, reduceCtorEq] at h
  all_goals subst h
  all_goals refine ⟨?_, ?_, ?_, ?_⟩
  all_goals simp_all [take, accept, MainPc.Disconnecting]

/-- A thread can move as long as `Run` has not returned. -/
theorem Placed.returned (hq : c.Placed) (hc : c.Closing) (hstuck : ∀ i, c.step i = none) : c.Returned := by
  have hmain := fun x => hstuck (.main, x)
  have hrecv := fun x => hstuck (.recv, x)
  have hdone : c.recv = .done := by
    cases hp : c.recv with
    | off => exact absurd (hq.recv hp) (by simp [hc.created])
    | recv => simpa [Client.step, recvStep, hp, recvCall] using hrecv .failed
    | test | print msg | notice | store => simpa [Client.step, recvStep, hp] using hrecv .go
    | done => rfl
  have hmdone : c.main = .done := by
    cases hp : c.main with
    | store => exact absurd hp hc.created.1
    | spawn => exact absurd hp hc.created.2
    | getline => simpa [Client.step, mainStep, hp] using hmain .eof
    | send left =>
      cases left with
      | nil => simpa [Client.step, mainStep, hp] using hmain .go
      | cons b left => simpa [Client.step, mainStep, hp] using hmain .failed
    | drain => simpa [Client.step, mainStep, hp, recvCall] using hmain .failed
    | join => simpa [Client.step, mainStep, hp, hdone] using hmain .go
    | test msg | shutdown =>
      have hgo := hmain .go
      simp only [Client.step, mainStep, hp] at hgo
      split at hgo <;> cases hgo
    | stop | close => simpa [Client.step, mainStep, hp] using hmain .go
    | done => rfl
  exact ⟨hmdone, hdone, hq.socket.2 (.inr hmdone), hq.inactive (by rw [hmdone]; trivial)⟩

end Client

variable {c c' : Client} {ok : Client → Thread × Input → Prop}

theorem placed (h : client.Reach ok c) : c.Placed := by
  refine h.invariant Client.Placed ?_ fun c ⟨t, x⟩ c' _ hq _ hst => hq.step hst
  rintro c ⟨stream, rfl⟩
  refine ⟨fun _ => .inl rfl, nofun, ?_, False.elim⟩
  simp [Client.start]

/-- **`Run` returns** when the input has ended or the server has disconnected: the runs from there on are bounded, and one
that cannot go on has come to the end of `Run`, with the socket closed. -/
theorem run_returns {is : List (Thread × Input)} (h : client.Reachable c) (hc : c.Closing)
    (hrun : client.run c is = some c') :
    is.length + c'.rank ≤ c.rank ∧ ((∀ i, client.step c' i = none) → c'.Returned) := by
  obtain ⟨hc', hle⟩ := System.run_length_le (fun c ⟨t, x⟩ c' => Client.step_rank) hrun hc
  exact ⟨hle, (placed (h.run_along hrun (System.along_true c is))).returned hc'⟩

/-- The server disconnects while the client waits for a line. -/
def serverLeaves : List (Thread × Input) :=
  List.replicate 2 (Thread.main, Input.go) ++
    [(Thread.recv, Input.go), (Thread.recv, Input.failed), (Thread.recv, Input.go), (Thread.recv, Input.go)]

def disconnected : Client := (client.run (.start []) serverLeaves).getD (.start [])

theorem run_disconnected : client.run (.start []) serverLeaves = some disconnected := rfl

/-- The next line is read, and nothing is sent. -/
def pressEnter : List (Thread × Input) :=
  [(Thread.main, Input.line [104])] ++ List.replicate 3 (Thread.main, Input.go) ++
    [(Thread.main, Input.failed), (Thread.main, Input.go), (Thread.main, Input.go)]

theorem run_returns_disconnected :
    (client.run disconnected pressEnter).map (fun c => (c.main, c.wire)) = some (.done, []) ∧
      ∀ c ∈ client.run disconnected pressEnter, pressEnter.length + c.rank ≤ disconnected.rank :=
  ⟨by decide, fun _ hc => (run_returns (System.reachable_of_run ⟨_, rfl⟩ run_disconnected) (by decide) hc).1⟩

end TcpChat.BlockingClient
