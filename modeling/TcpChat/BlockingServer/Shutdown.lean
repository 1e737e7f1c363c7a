import TcpChat.BlockingServer.Model

/-!
# `Stop` of the blocking server against the broadcasts

As in the framing server, `ChatServer::Stop` keeps `m_clientsMutex` while it joins the `ReceiveMsg` of each session,
and `ReceiveMsg` takes it in `BroadcastMsg`.

* `Fresh` — only sessions that have been made have threads;
* `JoinDeadlock` — `Stop` joins a `ReceiveMsg` that waits for the mutex `Stop` holds;
* `no_joinDeadlock` — it does not happen while no message gets in the way of `Stop`;
* `joinDeadlock_run` — one message does.
-/

namespace TcpChat.BlockingServer

open TcpChat.Lib

/-- The session that an accept thread is making. -/
def AcceptPc.session : AcceptPc → Option ℕ
  | .startActive i | .startThread i | .lock i | .push i => some i
  | _ => none

/-- The `ReceiveMsg` has a message and is about to take `m_clientsMutex`. -/
def RecvPc.WantsClients : RecvPc → Prop
  | .castLock _ => True
  | _ => False

instance : DecidablePred RecvPc.WantsClients := fun p =>
  decidable_of_iff (p matches .castLock _) (by cases p <;> simp [RecvPc.WantsClients])

/-- The answer of `recv` on the session `c` is a message. -/
def RecvPc.completes (c : Session) (x : Input) : RecvPc → Bool
  | .recv =>
    match c.recvCall x with
    | some (some _, _) => true
    | _ => false
  | _ => false

namespace Server

variable {s s' : Server} {t : Thread} {x : Input} {i : ℕ}

/-! ## The sessions -/

/-- Only sessions that have been made occur in the state. -/
structure Fresh (s : Server) : Prop where
  accept : ∀ k, ∀ r ∈ (s.accept k).session, r < s.count
  blank : ∀ r, s.count ≤ r → (s.sess r).started = false ∧ s.recv r = .off

/-- The positions of all threads but `t` are the same. -/
structure SamePc (t : Thread) (s s' : Server) : Prop where
  accept : ∀ k, t ≠ .accept k → s'.accept k = s.accept k
  recv : ∀ i, t ≠ .recv i → s'.recv i = s.recv i
  stop : t ≠ .stop → s'.stop = s.stop

theorem step_pc (h : s.step (t, x) = some s') : SamePc t s s' := by
  cases t <;> simp only [step, acceptStep, recvStep, stopStep] at h
  all_goals repeat' split at h
  all_goals simp only [Option.some.injEq, reduceCtorEq] at h
  all_goals subst h
  all_goals refine ⟨fun k hk => ?_, fun j hj => ?_, fun hs => ?_⟩
  all_goals first
    | rfl
    | contradiction
    | exact Function.update_of_ne (by rintro rfl; contradiction) _ _

theorem acceptStep_frame {k : ℕ} (h : s.acceptStep k x = some s') :
    s.count ≤ s'.count ∧ (∀ r ∈ (s'.accept k).session, r ∈ (s.accept k).session ∨ r < s'.count) ∧
      ∀ r, s'.count ≤ r → r ∉ (s.accept k).session → (s'.sess r).started = (s.sess r).started := by
  unfold acceptStep at h
  repeat' split at h
  all_goals simp only [Option.some.injEq, reduceCtorEq] at h
  all_goals subst h
  all_goals simp only [setAccept, modify, Function.update_self, Function.update_apply, AcceptPc.session, *]
  all_goals grind -linarith [AcceptPc.session]

theorem step_frame (h : s.step (t, x) = some s') (ht : ∀ k, t ≠ .accept k) :
    s'.count = s.count ∧ (∀ r, (s'.sess r).started = (s.sess r).started) ∧
      ∀ r, t = .recv r → s.recv r = .off → (s.sess r).started = true := by
  cases t <;> simp only [step, acceptStep, recvStep, stopStep] at h
  case accept k => exact absurd rfl (ht k)
  all_goals repeat' split at h
  all_goals simp only [Option.some.injEq, reduceCtorEq] at h
  all_goals subst h
  all_goals simp only [setRecv, setStop, modify, Function.update_apply]
  all_goals grind -linarith

theorem Fresh.step (hf : s.Fresh) (h : s.step (t, x) = some s') : s'.Fresh := by
  have hpc := step_pc h
  by_cases ht : ∃ k, t = .accept k
  · obtain ⟨k, rfl⟩ := ht
    obtain ⟨hc, hses, hsess⟩ := acceptStep_frame h
    refine ⟨fun l r hr => ?_, fun r hr => ?_⟩
    · by_cases hl : l = k
      · subst hl
        rcases hses r hr with h1 | h1
        · exact Nat.lt_of_lt_of_le (hf.accept l r h1) hc
        · exact h1
      · rw [hpc.accept l (by simpa [eq_comm] using hl)] at hr
        exact Nat.lt_of_lt_of_le (hf.accept l r hr) hc
    · have hne : r ∉ (s.accept k).session := fun h1 => by have := hf.accept k r h1; omega
      rw [hsess r hr hne, hpc.recv r (by simp)]
      exact hf.blank r (Nat.le_trans hc hr)
  · obtain ⟨hc, hstarted, hoff⟩ := step_frame h fun k hk => ht ⟨k, hk⟩
    refine ⟨fun l r hr => ?_, fun r hr => ?_⟩
    · rw [hc]
      exact hf.accept l r (hpc.accept l (fun hk => ht ⟨l, hk⟩) ▸ hr)
    · obtain ⟨h1, h2⟩ := hf.blank r (hc ▸ hr)
      refine ⟨by rw [hstarted, h1], ?_⟩
      by_cases htr : t = .recv r
      · rw [hoff r htr h2] at h1
        cases h1
      · rw [hpc.recv r htr, h2]

/-! ## The deadlock -/

/-- `Stop` holds `m_clientsMutex` and joins a `ReceiveMsg` that waits for it. -/
def JoinDeadlock (s : Server) : Prop :=
  ∃ i rest, s.stop = .join i rest ∧ s.clientsMutex = some .stop ∧ (s.recv i).WantsClients

/-- `Stop` takes `m_clientsMutex` only while no `ReceiveMsg` is about to take it for a message, and while `Stop` has
it no `ReceiveMsg` gets a message. -/
def StopsQuietly (s : Server) : Thread × Input → Prop
  | (.stop, _) => s.stop = .lock → ∀ i < s.count, ¬ (s.recv i).WantsClients
  | (.recv i, x) => s.clientsMutex = some .stop → (s.recv i).completes (s.sess i) x = false
  | _ => True

instance (s : Server) : DecidablePred s.StopsQuietly
  | (.stop, _) => inferInstanceAs (Decidable (_ → _))
  | (.recv _, _) => inferInstanceAs (Decidable (_ → _))
  | (.accept _, _) => isTrue trivial

theorem step_stop_lock (h : s.step (t, x) = some s') (hm : s'.clientsMutex = some .stop) :
    s.clientsMutex = some .stop ∨ t = .stop ∧ s.stop = .lock := by
  cases t <;> simp only [step, acceptStep, recvStep, stopStep] at h
  all_goals repeat' split at h
  all_goals simp only [Option.some.injEq, reduceCtorEq] at h
  all_goals subst h
  all_goals simp only [setAccept, setRecv, setStop, modify] at hm
  all_goals simp_all

theorem recvStep_wantsClients (h : s.recvStep i x = some s') (hw : (s'.recv i).WantsClients) :
    (s.recv i).completes (s.sess i) x = true := by
  unfold recvStep at h
  repeat' split at h
  all_goals simp only [Option.some.injEq, reduceCtorEq] at h
  all_goals subst h
  all_goals simp only [setRecv, modify, Function.update_self] at hw
  all_goals grind -linarith [RecvPc.WantsClients, RecvPc.completes]

/-- While `Stop` has `m_clientsMutex` no `ReceiveMsg` waits for it. -/
def StopUnopposed (s : Server) : Prop := s.clientsMutex = some .stop → ∀ i, ¬ (s.recv i).WantsClients

theorem StopUnopposed.step (hu : s.StopUnopposed) (hf : s.Fresh) (hq : s.StopsQuietly (t, x))
    (h : s.step (t, x) = some s') : s'.StopUnopposed := by
  intro hm i hw
  have hpc := step_pc h
  rcases step_stop_lock h hm with hm' | ⟨rfl, hp⟩
  · by_cases ht : t = .recv i
    · subst ht
      have hc := recvStep_wantsClients h hw
      rw [hq hm'] at hc
      cases hc
    · exact hu hm' i (hpc.recv i ht ▸ hw)
  · rw [hpc.recv i (by simp)] at hw
    by_cases hi : i < s.count
    · exact hq hp i hi hw
    · rw [(hf.blank i (by omega)).2] at hw
      exact hw

end Server

variable {s : Server}

theorem fresh {ok : Server → Thread × Input → Prop} (h : server.Reach ok s) : s.Fresh := by
  refine h.invariant Server.Fresh ?_ fun s ⟨t, x⟩ s' _ hf _ hst => hf.step hst
  rintro s ⟨n, rfl⟩
  refine ⟨fun k r hr => ?_, fun r _ => ⟨rfl, rfl⟩⟩
  simp only [Server.start] at hr
  split at hr <;> simp [AcceptPc.session] at hr

/-- While no message gets in the way of `Stop`, it never joins a `ReceiveMsg` that waits for it. -/
theorem no_joinDeadlock (h : server.Reach Server.StopsQuietly s) : ¬ s.JoinDeadlock := by
  have hu : s.StopUnopposed := by
    refine h.invariant Server.StopUnopposed ?_ fun s ⟨t, x⟩ s' hr hu hok hst => hu.step (fresh hr) hok hst
    rintro s ⟨n, rfl⟩ hm
    simp [Server.start] at hm
  rintro ⟨i, rest, -, hm, hw⟩
  exact hu hm i hw

/-- The accept thread `0` makes a session, on a connection that will deliver `stream`. -/
def connect (stream : List UInt8) : List (Thread × Input) :=
  (.accept 0, .go) :: (.accept 0, .accepted stream) :: List.replicate 5 (.accept 0, .go)

/-- From `ChatServer::Stop` to the join of the only session. -/
def stopToJoin : List (Thread × Input) :=
  [(Thread.stop, Input.go), (Thread.stop, Input.go), (Thread.accept 0, Input.go)] ++
    List.replicate 6 (Thread.stop, Input.go) ++ [(Thread.stop, Input.failed), (Thread.stop, Input.go)]

/-- A client sends one byte, and `Stop` takes the mutex before its `ReceiveMsg` does. -/
def stopDuringCast : List (Thread × Input) :=
  connect [104] ++ [(Thread.recv 0, Input.go), (Thread.recv 0, Input.go), (Thread.recv 0, Input.count 1)] ++ stopToJoin

theorem joinDeadlock_run : ∃ s, server.Reachable s ∧ s.JoinDeadlock := by
  have hrun : (server.run (.start 1) stopDuringCast).map (fun s => (s.stop, s.clientsMutex, s.recv 0)) =
      some (.join 0 [], some .stop, .castLock [104]) := by decide +kernel
  rw [Option.map_eq_some_iff] at hrun
  obtain ⟨s, hs, heq⟩ := hrun
  simp only [Prod.mk.injEq] at heq
  refine ⟨s, System.reachable_of_run ⟨1, rfl⟩ hs, 0, [], heq.1, heq.2.1, ?_⟩
  rw [heq.2.2]
  trivial

end TcpChat.BlockingServer
