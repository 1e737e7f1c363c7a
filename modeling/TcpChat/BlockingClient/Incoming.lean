import TcpChat.BlockingClient.Stream

/-!
# The bytes that are still to come to the blocking client

As `BlockingServer.Incoming` for the server: to a state of the client bytes are added that the server has not written yet,
and the client may go the same steps.
-/

namespace TcpChat.BlockingClient

open TcpChat.Lib

namespace Client

/-- The client whose server has still the bytes `u` to send. -/
def incoming (c : Client) (u : List UInt8) : Client := { c with stream := c.stream ++ u, unread := c.unread ++ u }

@[simp] theorem incoming_nil (c : Client) : c.incoming [] = c := by simp [incoming]

theorem incoming_incoming (c : Client) (u v : List UInt8) : (c.incoming u).incoming v = c.incoming (u ++ v) := by
  simp [incoming]

variable {c c' : Client} {t : Thread} {x : Input}

/-- A call of `recv` reports the same, when there are more bytes to come. -/
theorem recvCall_incoming {wants : ℕ} {res : Option (List UInt8)} (h : c.recvCall wants x = some res) (u : List UInt8) :
    (c.incoming u).recvCall wants x = some res ∧ ∀ msg ∈ res, msg.length ≤ c.unread.length := by
  cases x <;> simp only [recvCall, Option.ite_none_right_eq_some, Option.some.injEq, reduceCtorEq] at h
  case count n =>
    obtain ⟨⟨hv, h0, hw, hu⟩, rfl⟩ := h
    have hlen : n ≤ (c.incoming u).unread.length := by
      rw [incoming, List.length_append]
      omega
    refine ⟨(if_pos ⟨hv, h0, hw, hlen⟩).trans ?_, fun msg hmsg => ?_⟩
    · rw [incoming, List.take_append_of_le_length hu]
    · obtain rfl := Option.some.inj hmsg
      exact List.length_take_le' n c.unread
  case failed =>
    subst h
    exact ⟨rfl, by simp⟩

theorem take_incoming {msg : List UInt8} (h : msg.length ≤ c.unread.length) (u : List UInt8) :
    (c.incoming u).take t msg = (c.take t msg).incoming u := by
  simp only [take, incoming, List.drop_append_of_le_length h]

/-- **A step of the client is a step with the bytes to come.** -/
theorem step_incoming (h : c.step (t, x) = some c') (u : List UInt8) :
    (c.incoming u).step (t, x) = some (c'.incoming u) := by
  cases t with
  | main =>
    have hpc : (c.incoming u).main = c.main := rfl
    simp only [Client.step] at h ⊢
    cases hp : c.main with
    | drain =>
      rw [hp] at hpc
      simp only [mainStep, hp] at h
      split at h
      · cases h
      all_goals rename_i hcall
      all_goals obtain ⟨hcall', hle⟩ := recvCall_incoming hcall u
      all_goals cases h
      all_goals simp only [mainStep, hpc, hcall']
      · rfl
      · rw [take_incoming (hle _ rfl)]
    | send left =>
      rw [hp] at hpc
      cases left <;> cases x <;>
        simp only [mainStep, hp, Option.some.injEq, Option.ite_none_right_eq_some, reduceCtorEq] at h
      all_goals simp only [mainStep, hpc]
      all_goals first
        | subst h
        | obtain ⟨hc, rfl⟩ := h
      all_goals first
        | rfl
        | exact (if_pos hc).trans rfl
    | _ =>
      rw [hp] at hpc
      cases x <;> simp only [mainStep, hp, reduceCtorEq] at h
      all_goals simp only [mainStep, hpc]
      all_goals try split at h
      all_goals cases h
      all_goals first
        | rfl
        | exact (if_pos ‹_›).trans rfl
        | exact (if_neg ‹_›).trans rfl
  | recv =>
    have hpc : (c.incoming u).recv = c.recv := rfl
    simp only [Client.step] at h ⊢
    cases hp : c.recv with
    | recv =>
      rw [hp] at hpc
      simp only [recvStep, hp] at h
      split at h
      · cases h
      all_goals rename_i hcall
      all_goals obtain ⟨hcall', hle⟩ := recvCall_incoming hcall u
      all_goals cases h
      all_goals simp only [recvStep, hpc, hcall']
      · rfl
      · rw [take_incoming (hle _ rfl)]
        rfl
    | _ =>
      rw [hp] at hpc
      cases x <;> simp only [recvStep, hp, Option.some.injEq, reduceCtorEq] at h
      all_goals subst h
      all_goals simp only [recvStep, hpc]
      all_goals rfl

/-- The client writes at the end. -/
theorem step_writes (h : c.step (t, x) = some c') : c'.stream = c.stream ∧ ∃ out, c'.wire = c.wire ++ out := by
  cases t <;> simp only [Client.step, mainStep, recvStep] at h
  all_goals repeat' split at h
  all_goals simp only [Option.some.injEq, reduceCtorEq] at h
  all_goals subst h
  all_goals first
    | exact ⟨rfl, [], (List.append_nil _).symm⟩
    | exact ⟨rfl, _, rfl⟩

end Client

end TcpChat.BlockingClient
