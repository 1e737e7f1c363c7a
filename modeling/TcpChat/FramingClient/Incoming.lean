import TcpChat.FramingClient.Readers

/-!
# The bytes that are still to come from the server

As `FramingServer.Incoming` for the server: to a state of the client bytes are added that the server has not written yet,
and the client may go the same steps.
-/

namespace TcpChat.FramingClient

open TcpChat.Framing TcpChat.Lib

namespace Client

/-- The client whose server has still the bytes `u` to send. -/
def incoming (c : Client) (u : List UInt8) : Client := { c with stream := c.stream ++ u, unread := c.unread ++ u }

@[simp] theorem incoming_nil (c : Client) : c.incoming [] = c := by simp [incoming]

theorem incoming_incoming (c : Client) (u v : List UInt8) : (c.incoming u).incoming v = c.incoming (u ++ v) := by
  simp [incoming]

variable {c c' : Client} {t : Thread} {x : Input} {u : List UInt8}

/-- A call of `recv`, when there are more bytes to come: it reports the same, or an error in place of a closure. -/
theorem recvCall_incoming {w : ℕ} {res : RecvResult} {unread : List UInt8} (h : c.recvCall w x = some (res, unread))
    (u : List UInt8) :
    ∃ x' res', (∀ n, x' = .count n → x = .count n) ∧ (c.incoming u).recvCall w x' = some (res', unread ++ u) ∧
      ∀ r : FrameReader, r.turn res' = r.turn res := by
  cases x <;> simp only [recvCall, Option.ite_none_right_eq_some, Option.some.injEq, Prod.mk.injEq, reduceCtorEq] at h
  case count n =>
    obtain ⟨⟨hv, h0, hw, hu⟩, rfl, rfl⟩ := h
    have hlen : n ≤ (c.incoming u).unread.length := by
      rw [incoming, List.length_append]
      omega
    refine ⟨.count n, .bytes (c.unread.take n), fun _ => id, (if_pos ⟨hv, h0, hw, hlen⟩).trans ?_, fun _ => rfl⟩
    rw [incoming, List.take_append_of_le_length hu, List.drop_append_of_le_length hu]
  case closed =>
    obtain ⟨hu, rfl, rfl⟩ := h
    refine ⟨.error (.other 0), .error (.other 0), by simp, ?_, fun _ => rfl⟩
    simp [recvCall, incoming, hu]
  case error e =>
    obtain ⟨rfl, rfl⟩ := h
    exact ⟨.error e, .error e, by simp, rfl, fun _ => rfl⟩

theorem mainStep_incoming (h : c.mainStep x = some c') (u : List UInt8) :
    ∃ x', (∀ n, x' = .count n → x = .count n) ∧ (c.incoming u).mainStep x' = some (c'.incoming u) := by
  have hpc : (c.incoming u).main = c.main := rfl
  cases hp : c.main with
  | drain r =>
    rw [hp] at hpc
    simp only [mainStep, hp] at h
    split at h
    · cases h
    rename_i res unread hcall
    obtain ⟨x', res', hx, hcall', hturn⟩ := recvCall_incoming hcall u
    refine ⟨x', hx, ?_⟩
    simp only [mainStep, hpc, hcall', hturn]
    split at h <;> cases h <;> rfl
  | lineTest msg =>
    rw [hp] at hpc
    refine ⟨x, fun _ => id, ?_⟩
    cases x <;> simp only [mainStep, hp, reduceCtorEq] at h
    simp only [mainStep, hpc]
    split at h
    · exact (if_pos ‹_›).trans (Option.some.inj h ▸ rfl)
    refine (if_neg ‹_›).trans ?_
    split at h
    · exact (if_pos ‹_›).trans (Option.some.inj h ▸ rfl)
    refine (if_neg ‹_›).trans ?_
    obtain ⟨tx, hst, rfl⟩ := Option.map_eq_some_iff.1 h
    exact Option.map_eq_some_iff.2 ⟨tx, hst, rfl⟩
  | enqueue =>
    rw [hp] at hpc
    refine ⟨x, fun _ => id, ?_⟩
    cases x <;> simp only [mainStep, hp, reduceCtorEq] at h
    have htx : (c.incoming u).tx = c.tx := rfl
    simp only [mainStep, hpc, htx]
    split at h
    · cases h
      rfl
    · obtain ⟨tx, hst, rfl⟩ := Option.map_eq_some_iff.1 h
      exact Option.map_eq_some_iff.2 ⟨tx, hst, rfl⟩
  | _ =>
    rw [hp] at hpc
    refine ⟨x, fun _ => id, ?_⟩
    cases x <;> simp only [mainStep, hp, Option.some.injEq, Option.ite_none_right_eq_some, reduceCtorEq] at h
    all_goals simp only [mainStep, hpc]
    all_goals first
      | subst h
      | obtain ⟨hc, rfl⟩ := h
    all_goals first
      | rfl
      | exact if_pos hc

theorem recvStep_incoming (h : c.recvStep x = some c') (u : List UInt8) :
    ∃ x', (∀ n, x' = .count n → x = .count n) ∧ (c.incoming u).recvStep x' = some (c'.incoming u) := by
  have hpc : (c.incoming u).recv = c.recv := rfl
  cases hp : c.recv with
  | frame r =>
    rw [hp] at hpc
    simp only [recvStep, hp] at h
    split at h
    · cases h
    rename_i res unread hcall
    obtain ⟨x', res', hx, hcall', hturn⟩ := recvCall_incoming hcall u
    refine ⟨x', hx, ?_⟩
    simp only [recvStep, hpc, hcall', hturn]
    split at h <;> cases h <;> rfl
  | body msg =>
    rw [hp] at hpc
    refine ⟨x, fun _ => id, ?_⟩
    cases x <;> simp only [recvStep, hp, reduceCtorEq] at h
    have hmode : (c.incoming u).rxMode = c.rxMode := rfl
    simp only [recvStep, hpc, hmode]
    split at h
    · refine (if_pos ‹_›).trans ?_
      split at h <;> cases h <;> rfl
    · exact (if_neg ‹_›).trans (Option.some.inj h ▸ rfl)
  | _ =>
    rw [hp] at hpc
    refine ⟨x, fun _ => id, ?_⟩
    cases x <;> simp only [recvStep, hp, Option.some.injEq, Option.ite_none_right_eq_some, reduceCtorEq] at h
    all_goals simp only [recvStep, hpc]
    all_goals first
      | subst h
      | obtain ⟨hc, rfl⟩ := h
    all_goals first
      | rfl
      | exact if_pos hc

theorem printStep_incoming (h : c.printStep x = some c') (u : List UInt8) :
    (c.incoming u).printStep x = some (c'.incoming u) := by
  have hpc : (c.incoming u).print = c.print := rfl
  cases hp : c.print with
  | pop =>
    rw [hp] at hpc
    cases x <;> simp only [printStep, hp, reduceCtorEq] at h
    have hq : (c.incoming u).rxQueue = c.rxQueue := rfl
    simp only [printStep, hpc, hq]
    split at h <;> cases h
    rfl
  | _ =>
    rw [hp] at hpc
    cases x <;> simp only [printStep, hp, Option.some.injEq, Option.ite_none_right_eq_some, reduceCtorEq] at h
    all_goals simp only [printStep, hpc]
    all_goals first
      | subst h
      | obtain ⟨hc, rfl⟩ := h
    all_goals first
      | rfl
      | exact if_pos hc

/-- **A step of the client is a step with the bytes to come.** -/
theorem step_incoming (h : c.step (t, x) = some c') (u : List UInt8) :
    ∃ x', (c.Alone (t, x) → (c.incoming u).Alone (t, x')) ∧ (c.incoming u).step (t, x') = some (c'.incoming u) := by
  cases t with
  | main =>
    obtain ⟨x', hx, hst⟩ := mainStep_incoming h u
    refine ⟨x', fun ha => ?_, hst⟩
    cases x' with
    | count n => exact hx n rfl ▸ ha
    | _ => trivial
  | recv =>
    obtain ⟨x', hx, hst⟩ := recvStep_incoming h u
    refine ⟨x', fun ha => ?_, hst⟩
    cases x' with
    | count n => exact hx n rfl ▸ ha
    | _ => trivial
  | print => exact ⟨x, id, printStep_incoming h u⟩
  | send =>
    obtain ⟨tx, htx, rfl⟩ := Option.map_eq_some_iff.1 h
    exact ⟨x, id, Option.map_eq_some_iff.2 ⟨tx, htx, rfl⟩⟩

/-- `SendMessages` writes at the end. -/
theorem step_wire (h : c.step (t, x) = some c') : ∃ out, c'.tx.wire = c.tx.wire ++ out := by
  rcases step_tx h with he | ⟨i, -, hst⟩
  · exact ⟨[], by rw [he, List.append_nil]⟩
  · cases i <;> simp only [Tx.step, Tx.enqueueStep, Tx.sendStep] at hst
    all_goals repeat' split at hst
    all_goals simp only [Option.some.injEq, reduceCtorEq] at hst
    all_goals rw [← hst]
    all_goals first
      | exact ⟨[], (List.append_nil _).symm⟩
      | exact ⟨_, rfl⟩

end Client

end TcpChat.FramingClient
