import TcpChat.BlockingServer.Order

/-!
# The blocking server after `Stop`

`ChatServer::Stop` joins the accept threads, takes `m_clientsMutex` and ends the sessions one after the other.
`BroadcastMsg` sends only while it has this mutex, so from there on nothing is sent to anyone.

* `Finished` — the thread of a session is at its end, and its socket is closed;
* `WoundUp` — the invariant: what `Stop` has done with the sessions up to its position;
* `silenced` — from the moment `Stop` has `m_clientsMutex` no stream changes, and when `Stop` has returned every session
  that was ever made has finished, and no thread can move.
-/

namespace TcpChat.BlockingServer

open TcpChat.Lib

/-! ## Positions -/

/-- The sessions that `Stop` has still to join. -/
def StopPc.sessions : StopPc → List ℕ
  | .next rest => rest
  | .store i rest | .shutdown i rest | .drain i rest | .close i rest | .join i rest => i :: rest
  | _ => []

/-- `Stop` has not taken `m_clientsMutex`. -/
def StopPc.Before : StopPc → Prop
  | .idle | .closeListeners | .joinAccept _ | .lock => True
  | _ => False

/-- `Stop` has still to end the session `r`. -/
def StopPc.Left (r : ℕ) (p : StopPc) : Prop := p.Before ∨ r ∈ p.sessions

/-- `Stop` has joined the accept thread `k`. -/
def StopPc.Joined (k : ℕ) : StopPc → Prop
  | .idle | .closeListeners => False
  | .joinAccept n => k < n
  | _ => True

/-- The session whose `m_active` has been cleared. -/
def StopPc.cleared : StopPc → Option ℕ
  | .shutdown i _ | .drain i _ | .close i _ | .join i _ => some i
  | _ => none

/-- The session whose socket has been closed. -/
def StopPc.closed : StopPc → Option ℕ
  | .join i _ => some i
  | _ => none

theorem StopPc.joined_of_not_before {p : StopPc} (h : ¬ p.Before) (k : ℕ) : p.Joined k := by
  cases p <;> first | exact absurd trivial h | exact trivial

namespace Server

variable {s s' : Server} {t : Thread} {x : Input} {i r : ℕ}

/-! ## The accept threads -/

/-- The accept threads that there are not, and those that `Stop` has joined, are at their ends. -/
def AcceptDone (s : Server) : Prop := ∀ k, s.acceptors ≤ k ∨ s.stop.Joined k → s.accept k = .done

theorem step_acceptors (h : s.step (t, x) = some s') : s'.acceptors = s.acceptors := by
  cases t <;> simp only [step, acceptStep, recvStep, stopStep] at h
  all_goals repeat' split at h
  all_goals simp only [Option.some.injEq, reduceCtorEq] at h
  all_goals subst h
  all_goals rfl

theorem stopStep_joined (h : s.stopStep x = some s') {k : ℕ} (hj : s'.stop.Joined k) :
    s.acceptors ≤ k ∨ s.stop.Joined k ∨ s.accept k = .done := by
  unfold stopStep at h
  repeat' split at h
  all_goals simp only [Option.some.injEq, reduceCtorEq] at h
  all_goals subst h
  all_goals simp only [setStop, modify, StopPc.Joined, *] at hj ⊢
  all_goals grind -linarith

theorem AcceptDone.step (hd : s.AcceptDone) (h : s.step (t, x) = some s') : s'.AcceptDone := by
  intro k hk
  have hpc := step_pc h
  rw [step_acceptors h] at hk
  by_cases ht : t = .stop
  · subst ht
    rw [hpc.accept k nofun]
    rcases hk with hk | hk
    · exact hd k (.inl hk)
    · rcases stopStep_joined h hk with h1 | h1 | h1
      · exact hd k (.inl h1)
      · exact hd k (.inr h1)
      · exact h1
  · rw [hpc.stop ht] at hk
    have hdone := hd k hk
    by_cases htk : t = .accept k
    · subst htk
      simp [Server.step, acceptStep, hdone] at h
    · rw [hpc.accept k htk, hdone]

theorem AcceptDone.not_accept (hd : s.AcceptDone) (hb : ¬ s.stop.Before) (h : s.step (t, x) = some s') (k : ℕ) :
    t ≠ .accept k := by
  rintro rfl
  simp [Server.step, acceptStep, hd k (.inr (StopPc.joined_of_not_before hb k))] at h

/-! ## The sessions that there are -/

/-- Every session is in `m_clients`, or on its way there, until `Stop` empties it; and its thread has been created, or is
about to be. -/
structure Tracked (s : Server) : Prop where
  known : ∀ r < s.count, r ∈ s.clients ∨ (∃ k, r ∈ (s.accept k).session) ∨ s.stop = .unlock ∨ s.stop = .done
  started : ∀ r < s.count, (s.sess r).started = true ∨ ∃ k, s.accept k = .startActive r ∨ s.accept k = .startThread r

theorem acceptStep_tracked (h : s.acceptStep i x = some s') :
    (∀ r ∈ s.clients, r ∈ s'.clients) ∧ (∀ r ∈ (s.accept i).session, r ∈ (s'.accept i).session ∨ r ∈ s'.clients) ∧
      (∀ r < s'.count, r < s.count ∨ s'.accept i = .startActive r) ∧
      ∀ r < s.count, ((s.sess r).started = true → (s'.sess r).started = true) ∧
        (s.accept i = .startActive r → s'.accept i = .startThread r) ∧
        (s.accept i = .startThread r → (s'.sess r).started = true) := by
  unfold acceptStep at h
  repeat' split at h
  all_goals simp only [Option.some.injEq, reduceCtorEq] at h
  all_goals subst h
  all_goals simp only [setAccept, modify, Function.update_self, Function.update_apply, AcceptPc.session, *]
  all_goals grind -linarith

theorem recvStep_kept (h : s.recvStep i x = some s') :
    s'.clients = s.clients ∧ (s'.sess r).active = (s.sess r).active ∧ (s'.sess r).valid = (s.sess r).valid := by
  unfold recvStep at h
  repeat' split at h
  all_goals simp only [Option.some.injEq, reduceCtorEq] at h
  all_goals subst h
  all_goals simp only [setRecv, modify, Function.update_apply]
  all_goals grind -linarith

theorem stopStep_clients (h : s.stopStep x = some s') :
    s'.clients = s.clients ∧ ¬ (s.stop = .unlock ∨ s.stop = .done) ∧ ¬ (s'.stop = .unlock ∨ s'.stop = .done) ∨
      (s'.stop = .unlock ∨ s'.stop = .done) ∧ (s'.clients = [] ∨ s.stop = .unlock ∧ s'.clients = s.clients) := by
  unfold stopStep at h
  repeat' split at h
  all_goals simp only [Option.some.injEq, reduceCtorEq] at h
  all_goals subst h
  all_goals simp [setStop, modify, *]

theorem Tracked.step (hk : s.Tracked) (h : s.step (t, x) = some s') : s'.Tracked := by
  obtain ⟨hknown, hstarted⟩ := hk
  have hpc := step_pc h
  by_cases ht : ∃ k, t = .accept k
  · obtain ⟨k, rfl⟩ := ht
    obtain ⟨hclients, hsession, hcount, hstart⟩ := acceptStep_tracked h
    have hother : ∀ l, l ≠ k → s'.accept l = s.accept l := fun l hl => hpc.accept l (by simpa [eq_comm] using hl)
    refine ⟨fun r hr => ?_, fun r hr => ?_⟩
    all_goals rcases hcount r hr with hr | hnew
    · rcases hknown r hr with h1 | ⟨l, hl⟩ | h1
      · exact .inl (hclients r h1)
      · by_cases hlk : l = k
        · subst hlk
          exact (hsession r hl).elim (fun h2 => .inr (.inl ⟨l, h2⟩)) .inl
        · exact .inr (.inl ⟨l, hother l hlk ▸ hl⟩)
      · exact .inr (.inr (hpc.stop nofun ▸ h1))
    · exact .inr (.inl ⟨k, by rw [hnew]; rfl⟩)
    · obtain ⟨hkeep, hactive, hthread⟩ := hstart r hr
      rcases hstarted r hr with h1 | ⟨l, hl⟩
      · exact .inl (hkeep h1)
      · by_cases hlk : l = k
        · subst hlk
          exact hl.elim (fun h2 => .inr ⟨l, .inr (hactive h2)⟩) fun h2 => .inl (hthread h2)
        · exact .inr ⟨l, hother l hlk ▸ hl⟩
    · exact .inr ⟨k, .inl hnew⟩
  · obtain ⟨hcount, hsame, -⟩ := step_frame h fun k hk => ht ⟨k, hk⟩
    have haccept : s'.accept = s.accept := funext fun k => hpc.accept k fun hk => ht ⟨k, hk⟩
    refine ⟨fun r hr => ?_, fun r hr => ?_⟩
    all_goals rw [hcount] at hr
    · rw [haccept]
      cases t with
      | accept k => exact absurd ⟨k, rfl⟩ ht
      | recv i =>
        rw [(recvStep_kept (r := r) h).1, hpc.stop nofun]
        exact hknown r hr
      | stop =>
        rcases stopStep_clients h with ⟨hclients, hlast, -⟩ | ⟨hlast, -⟩
        · rw [hclients]
          exact (hknown r hr).imp_right fun h1 => .inl (h1.resolve_right hlast)
        · exact .inr (.inr hlast)
    · rw [hsame, haccept]
      exact hstarted r hr

/-! ## What `Stop` has done -/

/-- The session is over. -/
structure Finished (s : Server) (r : ℕ) : Prop where
  active : (s.sess r).active = false
  valid : (s.sess r).valid = false
  recv : s.recv r = .done

/-- What `Stop` has done up to its position. -/
structure WoundUp (s : Server) : Prop where
  finished : ∀ r < s.count, ¬ s.stop.Left r → s.Finished r
  cleared : ∀ r ∈ s.stop.cleared, (s.sess r).active = false
  closed : ∀ r ∈ s.stop.closed, (s.sess r).valid = false

theorem woundUp_of_before (hb : s.stop.Before) : s.WoundUp := by
  refine ⟨fun r _ hr => absurd (.inl hb) hr, fun r hr => ?_, fun r hr => ?_⟩
  all_goals
    unfold StopPc.Before at hb
    split at hb
    all_goals simp_all [StopPc.cleared, StopPc.closed]

theorem stopStep_sess (h : s.stopStep x = some s') :
    ((s.sess r).active = false → (s'.sess r).active = false) ∧
      ((s.sess r).valid = false → (s'.sess r).valid = false) := by
  unfold stopStep at h
  repeat' split at h
  all_goals simp only [Option.some.injEq, reduceCtorEq] at h
  all_goals subst h
  all_goals simp only [setStop, modify, Function.update_apply]
  all_goals grind -linarith

theorem stopStep_hand (h : s.stopStep x = some s') :
    (r ∈ s'.stop.cleared → r ∈ s.stop.cleared ∨ (s'.sess r).active = false) ∧
      (r ∈ s'.stop.closed → (s'.sess r).valid = false) ∧
      (s.stop.Left r → ¬ s'.stop.Left r → s.stop = .lock ∧ r ∉ s.clients ∨
        ∃ rest, s.stop = .join r rest ∧ ((s.sess r).started = true → s.recv r = .done)) := by
  unfold stopStep at h
  repeat' split at h
  all_goals simp only [Option.some.injEq, reduceCtorEq] at h
  all_goals subst h
  all_goals simp only [StopPc.cleared, StopPc.closed, StopPc.sessions, StopPc.Left, StopPc.Before, setStop, modify,
    Function.update_apply, *]
  all_goals grind -linarith

/-- A session that is over stays so. -/
theorem Finished.step (hf : s.Finished r) (h : s.step (t, x) = some s') (ht : ∀ k, t ≠ .accept k) : s'.Finished r := by
  have hrecv : s'.recv r = .done := by
    by_cases htr : t = .recv r
    · subst htr
      simp [Server.step, recvStep, hf.recv] at h
    · rw [(step_pc h).recv r htr, hf.recv]
  cases t with
  | accept k => exact absurd rfl (ht k)
  | recv i =>
    obtain ⟨-, hactive, hvalid⟩ := recvStep_kept (r := r) h
    exact ⟨hactive ▸ hf.active, hvalid ▸ hf.valid, hrecv⟩
  | stop => exact ⟨(stopStep_sess h).1 hf.active, (stopStep_sess h).2 hf.valid, hrecv⟩

theorem WoundUp.step (hw : s.WoundUp) (hk : s.Tracked) (hd : s.AcceptDone) (h : s.step (t, x) = some s') : s'.WoundUp := by
  by_cases hb : s'.stop.Before
  · exact woundUp_of_before hb
  have ht : ∀ k, t ≠ .accept k := by
    rintro k rfl
    rw [(step_pc h).stop nofun] at hb
    exact hd.not_accept hb h k rfl
  obtain ⟨hcount, hstarted, -⟩ := step_frame h ht
  cases t with
  | accept k => exact absurd rfl (ht k)
  | recv i =>
    have hp := (step_pc h).stop nofun
    refine ⟨fun r hr hl => ?_, fun r hr => ?_, fun r hr => ?_⟩
    · exact (hw.finished r (hcount ▸ hr) (hp ▸ hl)).step h ht
    · exact (recvStep_kept h).2.1.trans (hw.cleared r (hp ▸ hr))
    · exact (recvStep_kept h).2.2.trans (hw.closed r (hp ▸ hr))
  | stop =>
    refine ⟨fun r hr hl => ?_, fun r hr => ?_, fun r hr => (stopStep_hand h).2.1 hr⟩
    · rw [hcount] at hr
      by_cases hl' : s.stop.Left r
      · rcases (stopStep_hand h).2.2 hl' hl with ⟨hlock, hout⟩ | ⟨rest, hp, hjoin⟩
        · -- `m_clients` has all the sessions
          have haccept : ∀ k, s.accept k = .done := fun k => hd k (.inr (by rw [hlock]; trivial))
          rcases hk.known r hr with h1 | ⟨k, h1⟩ | h1
          · exact absurd h1 hout
          · rw [haccept k] at h1
            cases h1
          · simp [hlock] at h1
        · have haccept : ∀ k, s.accept k = .done := fun k => hd k (.inr (by rw [hp]; trivial))
          have hstart : (s.sess r).started = true := by
            refine (hk.started r hr).resolve_right ?_
            rintro ⟨k, h1⟩
            simp [haccept k] at h1
          have hfinished : s.Finished r :=
            ⟨hw.cleared r (by rw [hp]; rfl), hw.closed r (by rw [hp]; rfl), hjoin hstart⟩
          exact hfinished.step h ht
      · exact (hw.finished r hr hl').step h ht
    · exact ((stopStep_hand h).1 hr).elim (fun h1 => (stopStep_sess h).1 (hw.cleared r h1)) id

/-- `Stop` has let go of the sessions. -/
structure Over (s : Server) : Prop where
  clients : s.clients = []
  sessions : ∀ r < s.count, s.Finished r
  still : ∀ t x, s.step (t, x) = none

/-- A `ReceiveMsg` sends only inside the critical section of `BroadcastMsg`. -/
theorem recvStep_wire (h : s.recvStep i x = some s') (hh : ¬ (s.recv i).HoldsClients) :
    (s'.sess r).wire = (s.sess r).wire := by
  unfold recvStep at h
  repeat' split at h
  all_goals simp only [Option.some.injEq, reduceCtorEq] at h
  all_goals subst h
  all_goals simp only [setRecv, modify, Function.update_apply]
  all_goals grind -linarith [RecvPc.HoldsClients]

theorem stopStep_held (h : s.stopStep x = some s') (hh : s.stop.HoldsClients) :
    (s'.stop.HoldsClients ∨ s'.stop = .done) ∧ (s'.sess r).wire = (s.sess r).wire := by
  unfold stopStep at h
  repeat' split at h
  all_goals simp only [Option.some.injEq, reduceCtorEq] at h
  all_goals subst h
  all_goals simp_all [setStop, modify, Function.update_apply, StopPc.HoldsClients]
  all_goals grind -linarith

end Server

/-! ## Runs -/

variable {s s' : Server} {ok : Server → Thread × Input → Prop}

theorem acceptDone (h : server.Reach ok s) : s.AcceptDone := by
  refine h.invariant Server.AcceptDone ?_ fun s ⟨t, x⟩ s' _ hd _ hst => hd.step hst
  rintro s ⟨n, rfl⟩ k hk
  simp only [Server.start, StopPc.Joined, or_false] at hk ⊢
  exact if_neg (by omega)

theorem tracked (h : server.Reach ok s) : s.Tracked := by
  refine h.invariant Server.Tracked ?_ fun s ⟨t, x⟩ s' _ hk _ hst => hk.step hst
  rintro s ⟨n, rfl⟩
  exact ⟨nofun, nofun⟩

theorem woundUp (h : server.Reach ok s) : s.WoundUp := by
  refine h.invariant Server.WoundUp ?_ fun s ⟨t, x⟩ s' hr hw ho hst => ?_
  · rintro s ⟨n, rfl⟩
    exact Server.woundUp_of_before trivial
  · exact hw.step (tracked hr) (acceptDone hr) hst

/-- `Stop` empties `m_clients` last. -/
theorem stopped_clients (h : server.Reach ok s) (hd : s.stop = .done) : s.clients = [] := by
  refine h.invariant (fun s => s.stop = .unlock ∨ s.stop = .done → s.clients = []) ?_
    (fun s ⟨t, x⟩ s' hr hc _ hst hp => ?_) (.inr hd)
  · rintro s ⟨n, rfl⟩ _
    rfl
  · replace hst : s.step (t, x) = some s' := hst
    cases t with
    | accept k =>
      rw [(Server.step_pc hst).stop nofun] at hp
      have hb : ¬ s.stop.Before := by rcases hp with hp | hp <;> rw [hp] <;> exact id
      exact absurd rfl ((acceptDone hr).not_accept hb hst k)
    | recv i =>
      rw [(Server.step_pc hst).stop nofun] at hp
      exact (Server.recvStep_kept (r := i) hst).1 ▸ hc hp
    | stop =>
      rcases Server.stopStep_clients hst with ⟨-, -, hlast⟩ | ⟨-, hclients | ⟨hunlock, hclients⟩⟩
      · exact absurd hp hlast
      · exact hclients
      · exact hclients ▸ hc (.inl hunlock)

/-- Once `Stop` has returned the server is over. -/
theorem over_of_done (h : server.Reach ok s) (hd : s.stop = .done) : s.Over := by
  have haccept : ∀ k, s.accept k = .done := fun k => acceptDone h k (.inr (by rw [hd]; trivial))
  have hfinished : ∀ r < s.count, s.Finished r := fun r hr =>
    (woundUp h).finished r hr (by simp [StopPc.Left, StopPc.Before, StopPc.sessions, hd])
  refine ⟨stopped_clients h hd, hfinished, fun t x => ?_⟩
  cases t with
  | accept k => simp [Server.step, Server.acceptStep, haccept k]
  | recv i =>
    by_cases hi : i < s.count
    · simp [Server.step, Server.recvStep, (hfinished i hi).recv]
    · obtain ⟨hnew, hoff⟩ := (fresh h).blank i (by omega)
      cases x <;> simp [Server.step, Server.recvStep, hoff, hnew]
  | stop => simp [Server.step, Server.stopStep, hd]

/-- From the moment `Stop` has `m_clientsMutex` nothing is sent; and when it has returned, the server is over. -/
theorem silenced (h : server.Reachable s) (hp : s.stop.HoldsClients) (hr : (server.startedIn s).Reachable s') :
    (∀ r, (s'.sess r).wire = (s.sess r).wire) ∧ (s'.stop = .done → s'.Over) := by
  have hall : server.Reachable s' ∧ (s'.stop.HoldsClients ∨ s'.stop = .done) ∧ ∀ r, (s'.sess r).wire = (s.sess r).wire := by
    refine hr.invariant (fun s' => server.Reachable s' ∧ (s'.stop.HoldsClients ∨ s'.stop = .done) ∧
      ∀ r, (s'.sess r).wire = (s.sess r).wire) ?_ fun t ⟨u, x⟩ t' _ ⟨hreach, hheld, hwire⟩ _ hst => ?_
    · rintro t rfl
      exact ⟨h, .inl hp, fun r => rfl⟩
    · replace hst : t.step (u, x) = some t' := hst
      rcases hheld with hheld | hdone
      · have hb : ¬ t.stop.Before := by cases hq : t.stop <;> simp_all [StopPc.HoldsClients, StopPc.Before]
        refine ⟨hreach.step trivial hst, ?_⟩
        cases u with
        | accept k => exact absurd rfl ((acceptDone hreach).not_accept hb hst k)
        | recv i =>
          have hown := clients_owned hreach
          have hout : ¬ t.HoldsClients (.recv i) := fun hh => by cases hown.excl hh (show t.HoldsClients .stop from hheld)
          exact ⟨.inl ((Server.step_pc hst).stop (by simp) ▸ hheld), fun r => (Server.recvStep_wire hst hout).trans (hwire r)⟩
        | stop => exact ⟨(Server.stopStep_held (r := 0) hst hheld).1, fun r => (Server.stopStep_held hst hheld).2.trans (hwire r)⟩
      · rw [(over_of_done hreach hdone).still] at hst
        cases hst
  exact ⟨hall.2.2, over_of_done hall.1⟩

/-- The first of two clients sends one byte, which is broadcast, and `Stop` takes `m_clientsMutex`. -/
def castThenStop : List (Thread × Input) :=
  connect [104] ++ connect [] ++
    [(Thread.recv 0, Input.go), (Thread.recv 0, Input.go), (Thread.recv 0, Input.count 1)] ++
    List.replicate 4 (Thread.recv 0, Input.go) ++ [(Thread.recv 0, Input.count 1)] ++
    List.replicate 4 (Thread.recv 0, Input.go) ++
    [(Thread.stop, Input.go), (Thread.stop, Input.go), (Thread.accept 0, Input.go)] ++
    List.replicate 3 (Thread.stop, Input.go)

/-- `Stop` ends the two sessions. -/
def stopBoth : List (Thread × Input) :=
  List.replicate 3 (Thread.stop, Input.go) ++
    [(Thread.stop, Input.failed), (Thread.stop, Input.go), (Thread.recv 0, Input.go)] ++
    List.replicate 4 (Thread.stop, Input.go) ++
    [(Thread.stop, Input.failed), (Thread.stop, Input.go), (Thread.recv 1, Input.go), (Thread.recv 1, Input.go)] ++
    List.replicate 4 (Thread.stop, Input.go)

theorem silenced_stopBoth : ∃ s s', server.run (.start 1) castThenStop = some s ∧ server.run s stopBoth = some s' ∧
    (s'.sess 1).wire = [104] ∧ (s'.sess 1).wire = (s.sess 1).wire ∧ s'.Over := by
  have hrun : ((server.run (.start 1) castThenStop).map Server.stop) = some (.next [0, 1]) ∧
      (server.run (.start 1) (castThenStop ++ stopBoth)).map (fun s => (s.stop, (s.sess 1).wire)) =
        some (.done, [104]) := by decide +kernel
  obtain ⟨hlock, hdone⟩ := hrun
  rw [Option.map_eq_some_iff] at hlock hdone
  obtain ⟨s, hs, hp⟩ := hlock
  obtain ⟨s', hs', hp'⟩ := hdone
  rw [System.run_append, hs, Option.bind_some] at hs'
  obtain ⟨hwire, hover⟩ := silenced (System.reachable_of_run ⟨1, rfl⟩ hs) (by rw [hp]; trivial)
    (System.reach_startedIn hs' (System.along_true s stopBoth))
  simp only [Prod.mk.injEq] at hp'
  exact ⟨s, s', hs, hs', hp'.2, hwire 1, hover hp'.1⟩

end TcpChat.BlockingServer
