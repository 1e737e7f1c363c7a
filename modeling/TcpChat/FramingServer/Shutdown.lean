import TcpChat.FramingServer.Registry

/-!
# `Stop` of the framing server against the broadcasts

`ChatServer::Stop` keeps `m_clientsMutex` while it joins the `RecvLoop` of each session, and a `RecvLoop` takes the
same mutex in `BroadcastMsg`.

* `JoinDeadlock` — `Stop` joins a `RecvLoop` that waits for the mutex `Stop` holds;
* `no_joinDeadlock` — it does not happen while no message gets in the way of `Stop`;
* `joinDeadlock_run` — one message does.
-/

namespace TcpChat.FramingServer

open TcpChat.Framing TcpChat.Lib

/-- The `RecvLoop` has a message and is about to take `m_clientsMutex`. -/
def RecvPc.WantsClients : RecvPc → Prop
  | .castLock _ => True
  | _ => False

instance : DecidablePred RecvPc.WantsClients := fun p =>
  decidable_of_iff (p matches .castLock _) (by cases p <;> simp [RecvPc.WantsClients])

/-- The answer of `recv` on the session `c` completes a message. -/
def RecvPc.completes (c : Session) (x : Input) : RecvPc → Bool
  | .frame r =>
    match c.recvCall r.wants x with
    | none => false
    | some (res, _) =>
      match r.turn res with
      | .ret (some _) => true
      | _ => false
  | _ => false

namespace Server

/-- `Stop` holds `m_clientsMutex` and joins a `RecvLoop` that waits for it. -/
def JoinDeadlock (s : Server) : Prop :=
  ∃ i rest, s.stop = .joinRecv i rest ∧ s.clientsMutex = some .stop ∧ (s.recv i).WantsClients

/-- `Stop` takes `m_clientsMutex` only while no `RecvLoop` is about to take it for a message, and while `Stop` has it
no `RecvLoop` completes a message. -/
def StopsQuietly (s : Server) : Thread × Input → Prop
  | (.stop, _) => s.stop = .lock → ∀ i < s.count, ¬ (s.recv i).WantsClients
  | (.recv i, x) => s.clientsMutex = some .stop → (s.recv i).completes (s.sess i) x = false
  | _ => True

instance (s : Server) : DecidablePred s.StopsQuietly
  | (.stop, _) => inferInstanceAs (Decidable (_ → _))
  | (.recv _, _) => inferInstanceAs (Decidable (_ → _))
  | (.accept _, _) | (.send _, _) => isTrue trivial

variable {s s' : Server} {t : Thread} {x : Input} {i : ℕ}

theorem step_stop_lock (h : s.step (t, x) = some s') (hm : s'.clientsMutex = some .stop) :
    s.clientsMutex = some .stop ∨ t = .stop ∧ s.stop = .lock := by
  cases t <;> simp only [step, acceptStep, recvStep, sendStep, stopStep] at h
  all_goals repeat' split at h
  all_goals simp only [Option.some.injEq, reduceCtorEq] at h
  all_goals subst h
  all_goals simp only [setAccept, setRecv, setSend, setStop, modify] at hm
  all_goals simp_all

theorem recvStep_wantsClients (h : s.recvStep i x = some s') (hw : (s'.recv i).WantsClients) :
    (s.recv i).completes (s.sess i) x = true := by
  unfold recvStep at h
  repeat' split at h
  all_goals simp only [Option.some.injEq, reduceCtorEq] at h
  all_goals subst h
  all_goals simp only [setRecv, modify, Function.update_self] at hw
  all_goals grind -linarith [RecvPc.WantsClients, RecvPc.completes]

/-- While `Stop` has `m_clientsMutex` no `RecvLoop` waits for it. -/
def StopUnopposed (s : Server) : Prop := s.clientsMutex = some .stop → ∀ i, ¬ (s.recv i).WantsClients

theorem StopUnopposed.step (hu : s.StopUnopposed) (hf : s.Fresh) (hq : s.StopsQuietly (t, x))
    (h : s.step (t, x) = some s') : s'.StopUnopposed := by
  intro hm i hw
  have hpc := step_pc h
  rcases step_stop_lock h hm with hm' | ⟨rfl, hp⟩
  · by_cases ht : t = .recv i
    · subst ht
      have hc := recvStep_wantsClients h hw
      rw [hq hm'] at hc
      cases hc
    · exact hu hm' i (hpc.recv i ht ▸ hw)
  · rw [hpc.recv i (by simp)] at hw
    by_cases hi : i < s.count
    · exact hq hp i hi hw
    · rw [(hf.blank i (by omega)).2.1] at hw
      exact hw

end Server

/-- While no message gets in the way of `Stop`, it never joins a `RecvLoop` that waits for it. -/
theorem no_joinDeadlock {s : Server} (h : server.Reach Server.StopsQuietly s) : ¬ s.JoinDeadlock := by
  have hu : s.StopUnopposed := by
    refine h.invariant Server.StopUnopposed ?_ fun s ⟨t, x⟩ s' hr hu hok hst => hu.step (fresh hr) hok hst
    rintro s ⟨n, rfl⟩ hm
    simp [Server.start] at hm
  rintro ⟨i, rest, -, hm, hw⟩
  exact hu hm i hw

/-- From `ChatServer::Stop` to the join of the `RecvLoop` of the only session. -/
def stopToJoin : List (Thread × Input) :=
  [(Thread.stop, Input.go), (Thread.stop, Input.go), (Thread.accept 0, Input.go)] ++
    List.replicate 10 (Thread.stop, Input.go) ++ [(Thread.stop, Input.closed), (Thread.stop, Input.go)]

/-- A client sends one byte, and `Stop` takes the mutex before its `RecvLoop` does. -/
def stopDuringCast : List (Thread × Input) :=
  connect (frame [104]) ++
    [(Thread.recv 0, Input.go), (Thread.recv 0, Input.go), (Thread.recv 0, Input.count 4),
      (Thread.recv 0, Input.count 1)] ++ stopToJoin

theorem joinDeadlock_run : ∃ s, server.Reachable s ∧ s.JoinDeadlock := by
  have hrun : (server.run (.start 1) stopDuringCast).map (fun s => (s.stop, s.clientsMutex, s.recv 0)) =
      some (.joinRecv 0 [], some .stop, .castLock [104]) := by decide +kernel
  rw [Option.map_eq_some_iff] at hrun
  obtain ⟨s, hs, heq⟩ := hrun
  simp only [Prod.mk.injEq] at heq
  refine ⟨s, System.reachable_of_run ⟨1, rfl⟩ hs, 0, [], heq.1, heq.2.1, ?_⟩
  rw [heq.2.2]
  trivial

end TcpChat.FramingServer
