import TcpChat.FramingServer.Registry

/-!
# The bytes that are still to come

In the runs of `FramingServer.Model` all bytes that a client is going to send are in `unread` from the start.  Here the
bytes `f i` that the client of the session `i` has not written yet are added to a state, which may then go the same steps;
where a call of `recv` reports a closure it reports an error instead, which the code treats alike.

* `Server.incoming` — the state with these bytes;
* `step_incoming` — a step of the server is a step with the bytes to come.
-/

namespace TcpChat.FramingServer

open TcpChat.Framing TcpChat.Lib

/-- The session whose client has still the bytes `u` to send. -/
def Session.incoming (c : Session) (u : List UInt8) : Session := { c with unread := c.unread ++ u }

@[simp] theorem Session.incoming_nil (c : Session) : c.incoming [] = c := by simp [Session.incoming]

namespace Server

/-- The state in which the client of the session `i` has still the bytes `f i` to send. -/
def incoming (s : Server) (f : ℕ → List UInt8) : Server := { s with sess := fun i => (s.sess i).incoming (f i) }

variable {s s' : Server} {f : ℕ → List UInt8} {i j : ℕ} {x : Input}

theorem incoming_nil (s : Server) : s.incoming (fun _ => []) = s := by simp [incoming]

theorem incoming_incoming (s : Server) (f g : ℕ → List UInt8) :
    (s.incoming f).incoming g = s.incoming fun i => f i ++ g i := by
  simp [incoming, Session.incoming]

/-- A change of a session that keeps the bytes to come. -/
theorem modify_incoming {g g' : Session → Session} (hg : g' ((s.sess j).incoming (f j)) = (g (s.sess j)).incoming (f j)) :
    (s.incoming f).modify j g' = (s.modify j g).incoming f := by
  simp only [modify, incoming, Server.mk.injEq, true_and, and_true]
  funext k
  by_cases hk : k = j
  · subst hk
    simp only [Function.update_self, hg]
  · simp only [Function.update_of_ne hk]

/-- The sockets of the sessions accept the same bytes. -/
theorem sendCall_incoming (c : Session) (u data : List UInt8) : (c.incoming u).sendCall data = c.sendCall data := by
  funext x
  cases x <;> rfl

theorem sendStep_incoming (h : s.sendStep i x = some s') : (s.incoming f).sendStep i x = some (s'.incoming f) := by
  have hpc : (s.incoming f).send i = s.send i := rfl
  cases hp : s.send i with
  | frame msg w =>
    rw [hp] at hpc
    have hcall : ((s.incoming f).sess i).sendCall (w.offer msg.body) x = (s.sess i).sendCall (w.offer msg.body) x :=
      congrFun (sendCall_incoming _ _ _) x
    simp only [sendStep, hp] at h
    simp only [sendStep, hpc, hcall]
    split at h
    · cases h
    · split at h <;> cases h
      all_goals exact congrArg (fun s => some (setSend s i _)) (modify_incoming rfl)
  | pop =>
    rw [hp] at hpc
    cases x <;> simp only [sendStep, hp, reduceCtorEq] at h
    have hq : ((s.incoming f).sess i).txQueue = (s.sess i).txQueue := rfl
    simp only [sendStep, hpc, hq]
    split at h <;> cases h
    exact congrArg (fun s => some (setSend s i _)) (modify_incoming rfl)
  | unlock msg =>
    rw [hp] at hpc
    cases x <;> simp only [sendStep, hp, reduceCtorEq] at h
    simp only [sendStep, hpc]
    split at h <;> cases h
    all_goals exact congrArg (fun s => some (setSend s i _)) (modify_incoming rfl)
  | _ =>
    rw [hp] at hpc
    cases x <;> simp only [sendStep, hp, Option.some.injEq, Option.ite_none_right_eq_some, reduceCtorEq] at h
    all_goals simp only [sendStep, hpc]
    all_goals first
      | subst h
      | obtain ⟨hc, rfl⟩ := h
    all_goals first
      | rfl
      | exact congrArg (fun s => some (setSend s i _)) (modify_incoming rfl)
      | exact if_pos hc
      | exact (if_pos hc).trans (congrArg (fun s => some (setSend s i _)) (modify_incoming rfl))

/-- A call of `recv`, when there are more bytes to come: it reports the same, or an error in place of a closure. -/
theorem recvCall_incoming {c : Session} {w : ℕ} {res : RecvResult} {unread : List UInt8}
    (h : c.recvCall w x = some (res, unread)) (u : List UInt8) :
    ∃ x' res', (c.incoming u).recvCall w x' = some (res', unread ++ u) ∧ ∀ r : FrameReader, r.turn res' = r.turn res := by
  cases x <;> simp only [Session.recvCall, Option.ite_none_right_eq_some, Option.some.injEq, Prod.mk.injEq,
    reduceCtorEq] at h
  case count n =>
    obtain ⟨⟨hv, h0, hw, hu⟩, rfl, rfl⟩ := h
    refine ⟨.count n, .bytes (c.unread.take n), ?_, fun _ => rfl⟩
    have hlen : n ≤ (c.incoming u).unread.length := by
      rw [Session.incoming, List.length_append]
      omega
    have hcall := Session.recvCall_count (c := c.incoming u) hv h0 hw hlen
    rwa [Session.incoming, List.take_append_of_le_length hu, List.drop_append_of_le_length hu] at hcall
  case closed =>
    obtain ⟨hu, rfl, rfl⟩ := h
    refine ⟨.error (.other 0), .error (.other 0), ?_, fun _ => rfl⟩
    simp [Session.recvCall, Session.incoming, hu]
  case error e =>
    obtain ⟨rfl, rfl⟩ := h
    exact ⟨.error e, .error e, rfl, fun _ => rfl⟩

theorem recvStep_incoming (h : s.recvStep i x = some s') : ∃ x', (s.incoming f).recvStep i x' = some (s'.incoming f) := by
  have hpc : (s.incoming f).recv i = s.recv i := rfl
  cases hp : s.recv i with
  | frame r =>
    rw [hp] at hpc
    simp only [recvStep, hp] at h
    split at h
    · cases h
    rename_i res unread hcall
    obtain ⟨x', res', hcall', hturn⟩ := recvCall_incoming hcall (f i)
    refine ⟨x', ?_⟩
    have hcall'' : ((s.incoming f).sess i).recvCall r.wants x' = some (res', unread ++ f i) := hcall'
    simp only [recvStep, hpc, hcall'', hturn]
    split at h <;> cases h
    all_goals exact congrArg (fun s => some (setRecv s i _)) (modify_incoming rfl)
  | cast msg snapshot =>
    rw [hp] at hpc
    refine ⟨x, ?_⟩
    cases snapshot <;> cases x <;> simp only [recvStep, hp, Option.some.injEq, reduceCtorEq] at h
    all_goals simp only [recvStep, hpc]
    all_goals subst h
    all_goals first
      | rfl
      | exact congrArg (fun s => some (setRecv s i _)) (modify_incoming rfl)
  | _ =>
    rw [hp] at hpc
    refine ⟨x, ?_⟩
    cases x <;> simp only [recvStep, hp, Option.some.injEq, Option.ite_none_right_eq_some, reduceCtorEq] at h
    all_goals simp only [recvStep, hpc]
    all_goals first
      | subst h
      | obtain ⟨hc, rfl⟩ := h
    all_goals first
      | rfl
      | exact congrArg (fun s => some (setRecv s i _)) (modify_incoming rfl)
      | exact if_pos hc
      | exact (if_pos hc).trans (congrArg (fun s => some (setRecv s i _)) (modify_incoming rfl))

theorem stopStep_incoming (h : s.stopStep x = some s') : ∃ x', (s.incoming f).stopStep x' = some (s'.incoming f) := by
  have hpc : (s.incoming f).stop = s.stop := rfl
  cases hp : s.stop with
  | frame i rest r =>
    rw [hp] at hpc
    simp only [stopStep, hp] at h
    split at h
    · cases h
    rename_i res unread hcall
    obtain ⟨x', res', hcall', hturn⟩ := recvCall_incoming hcall (f i)
    refine ⟨x', ?_⟩
    have hcall'' : ((s.incoming f).sess i).recvCall r.wants x' = some (res', unread ++ f i) := hcall'
    simp only [stopStep, hpc, hcall'', hturn]
    split at h <;> cases h
    all_goals exact congrArg (fun s => some (setStop s _)) (modify_incoming rfl)
  | next rest =>
    rw [hp] at hpc
    refine ⟨x, ?_⟩
    cases rest <;> cases x <;> simp only [stopStep, hp, Option.some.injEq, reduceCtorEq] at h
    all_goals simp only [stopStep, hpc]
    all_goals subst h
    all_goals rfl
  | joinAccept k =>
    rw [hp] at hpc
    refine ⟨x, ?_⟩
    cases x <;> simp only [stopStep, hp, reduceCtorEq] at h
    simp only [stopStep, hpc]
    by_cases hk : k < s.acceptors
    · rw [if_pos hk, Option.ite_none_right_eq_some, Option.some.injEq] at h
      obtain ⟨hdone, rfl⟩ := h
      exact (if_pos hk).trans (if_pos hdone)
    · rw [if_neg hk, Option.some.injEq] at h
      exact h ▸ if_neg hk
  | _ =>
    rw [hp] at hpc
    refine ⟨x, ?_⟩
    cases x <;> simp only [stopStep, hp, Option.some.injEq, Option.ite_none_right_eq_some, reduceCtorEq] at h
    all_goals simp only [stopStep, hpc]
    all_goals first
      | subst h
      | obtain ⟨hc, rfl⟩ := h
    all_goals first
      | rfl
      | exact congrArg (fun s => some (setStop s _)) (modify_incoming rfl)
      | exact if_pos hc
      | exact (if_pos hc).trans (congrArg (fun s => some (setStop s _)) (modify_incoming rfl))

/-- An accept thread may make a session whose client has bytes to come. -/
theorem acceptStep_incoming {f₀ : ℕ → List UInt8} {k : ℕ} (h : s.acceptStep k x = some s')
    (heq : ∀ i, i < s.count → f₀ i = f i) (h0 : ∀ i, s.count ≤ i → f₀ i = []) (hf : ∀ i, s'.count ≤ i → f i = []) :
    ∃ x', (s.incoming f₀).acceptStep k x' = some (s'.incoming f) := by
  have hsame : s'.count = s.count → f₀ = f := fun hc => by
    funext i
    by_cases hi : i < s.count
    · exact heq i hi
    · rw [h0 i (by omega), hf i (by omega)]
  have hpc : (s.incoming f₀).accept k = s.accept k := rfl
  cases hp : s.accept k with
  | call =>
    rw [hp] at hpc
    cases x <;> simp only [acceptStep, hp, Option.some.injEq, Option.ite_none_right_eq_some, reduceCtorEq] at h
    case refused =>
      subst h
      obtain rfl := hsame rfl
      exact ⟨.refused, by simp only [acceptStep, hpc]; rfl⟩
    case accepted stream =>
      obtain ⟨hl, rfl⟩ := h
      refine ⟨.accepted (stream ++ f s.count), ?_⟩
      simp only [acceptStep, hpc]
      refine (if_pos hl).trans (congrArg some ?_)
      simp only [incoming, setAccept, Server.mk.injEq, true_and, and_true]
      funext i
      by_cases hi : i = s.count
      · subst hi
        simp [Session.new, Session.incoming]
      · rw [Function.update_of_ne hi, Function.update_of_ne hi]
        by_cases hlt : i < s.count
        · rw [heq i hlt]
        · rw [h0 i (by omega), hf i (by simp only [setAccept]; omega)]
  | _ =>
    rw [hp] at hpc
    cases x <;> simp only [acceptStep, hp, Option.some.injEq, Option.ite_none_right_eq_some, reduceCtorEq] at h
    all_goals first
      | subst h
      | obtain ⟨hc, rfl⟩ := h
    all_goals obtain rfl := hsame rfl
    all_goals refine ⟨.go, ?_⟩
    all_goals simp only [acceptStep, hpc]
    all_goals first
      | rfl
      | exact congrArg (fun s => some (setAccept s k _)) (modify_incoming rfl)
      | exact if_pos hc

/-- **A step of the server is a step with the bytes to come.** -/
theorem step_incoming {t : Thread} (h : s.step (t, x) = some s') (hf : ∀ i, s'.count ≤ i → f i = []) :
    ∃ x', (s.incoming fun i => if i < s.count then f i else []).step (t, x') = some (s'.incoming f) := by
  have hsame : s'.count = s.count → (fun i => if i < s.count then f i else []) = f := fun hc => by
    funext i
    split
    · rfl
    · exact (hf i (by omega)).symm
  cases t with
  | accept k => exact acceptStep_incoming h (fun i hi => if_pos hi) (fun i hi => if_neg (by omega)) hf
  | recv i => rw [hsame (recvStep_frame h).1]; exact recvStep_incoming h
  | send i => rw [hsame (sendStep_frame h).1]; exact ⟨x, sendStep_incoming h⟩
  | stop => rw [hsame (stopStep_frame h).1]; exact stopStep_incoming h

/-- A session writes at the end. -/
theorem step_wire {t : Thread} (h : s.step (t, x) = some s') (hf : s.Fresh) (r : ℕ) :
    ∃ out, (s'.sess r).wire = (s.sess r).wire ++ out := by
  have hb := (hf.blank s.count le_rfl).1
  cases t <;> simp only [step, acceptStep, recvStep, sendStep, stopStep] at h
  all_goals repeat' split at h
  all_goals simp only [Option.some.injEq, reduceCtorEq] at h
  all_goals subst h
  all_goals simp only [setAccept, setRecv, setSend, setStop, modify, Function.update_apply]
  all_goals first
    | exact ⟨[], (List.append_nil _).symm⟩
    | (split
       · subst_vars
         first
           | exact ⟨[], (List.append_nil _).symm⟩
           | exact ⟨_, rfl⟩
           | exact ⟨[], by simp [hb, Session.new]⟩
       · exact ⟨[], (List.append_nil _).symm⟩)

end Server

end TcpChat.FramingServer
