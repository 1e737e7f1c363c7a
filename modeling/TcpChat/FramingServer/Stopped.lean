import TcpChat.FramingServer.Locks
import TcpChat.FramingServer.Shutdown

/-!
# The framing server after `Stop`

`ChatServer::Stop` joins the accept threads first, so that no session is on its way into `m_clients` when it goes through
them, and then ends the sessions one after the other.

* `Finished` — the threads of a session are at their ends, its socket is closed, its queue is empty, and nothing will be
  queued;
* `WoundUp` — the invariant: what `Stop` has done with the sessions up to its position;
* `stopped` — when `Stop` has returned, every session that was ever made has finished, and no thread can move.
-/

namespace TcpChat.FramingServer

open TcpChat.Framing TcpChat.Lib

/-! ## Positions -/

/-- `Stop` has not taken `m_clientsMutex`. -/
def StopPc.Before : StopPc → Prop
  | .idle | .closeListeners | .joinAccept _ | .lock => True
  | _ => False

/-- `Stop` has still to end the session `r`. -/
def StopPc.Left (r : ℕ) (p : StopPc) : Prop := p.Before ∨ r ∈ p.sessions

/-- The session whose `m_active` has been cleared. -/
def StopPc.cleared : StopPc → Option ℕ
  | .lockTx i _ | .notifyEmpty i _ | .notifyFull i _ | .unlockTx i _ | .shutdown i _ | .frame i _ _ | .close i _
  | .joinRecv i _ | .joinSend i _ | .relockTx i _ | .clear i _ | .zero i _ | .reunlockTx i _ => some i
  | _ => none

/-- The session whose socket has been closed. -/
def StopPc.closed : StopPc → Option ℕ
  | .joinRecv i _ | .joinSend i _ | .relockTx i _ | .clear i _ | .zero i _ | .reunlockTx i _ => some i
  | _ => none

/-- The sessions whose threads have been joined. -/
def StopPc.recvJoined : StopPc → Option ℕ
  | .joinSend i _ | .relockTx i _ | .clear i _ | .zero i _ | .reunlockTx i _ => some i
  | _ => none

def StopPc.sendJoined : StopPc → Option ℕ
  | .relockTx i _ | .clear i _ | .zero i _ | .reunlockTx i _ => some i
  | _ => none

/-- The session whose queue has been emptied, and the one whose count has been set to 0. -/
def StopPc.emptied : StopPc → Option ℕ
  | .zero i _ | .reunlockTx i _ => some i
  | _ => none

def StopPc.zeroed : StopPc → Option ℕ
  | .reunlockTx i _ => some i
  | _ => none

/-- `SendMsg` has tested `m_active` of the session `r` and is about to queue a message. -/
def RecvPc.Pushes (r : ℕ) : RecvPc → Prop
  | .sendPush c | .sendAdd c => c.dest = r
  | _ => False

namespace Server

variable {s s' : Server} {t : Thread} {x : Input} {i r : ℕ}

/-! ## What a step does to a session -/

theorem step_valid (h : s.step (t, x) = some s') (ht : ∀ k, t ≠ .accept k) (hv : (s.sess r).valid = false) :
    (s'.sess r).valid = false := by
  cases t <;> simp only [step, recvStep, sendStep, stopStep] at h
  case accept k => exact absurd rfl (ht k)
  all_goals repeat' split at h
  all_goals simp only [Option.some.injEq, reduceCtorEq] at h
  all_goals subst h
  all_goals simp only [setRecv, setSend, setStop, modify, Function.update_apply]
  all_goals grind -linarith

theorem step_emptied (h : s.step (t, x) = some s') (ht : ∀ k, t ≠ .accept k) (hp : ∀ j, ¬ (s.recv j).Pushes r) :
    ((s.sess r).txQueue = [] → (s'.sess r).txQueue = []) ∧
      ((s.sess r).txBytesQueued = 0 → (s'.sess r).txBytesQueued = 0) := by
  cases t with
  | accept k => exact absurd rfl (ht k)
  | recv j =>
    have hj := hp j
    simp only [step, recvStep] at h
    repeat' split at h
    all_goals simp only [Option.some.injEq, reduceCtorEq] at h
    all_goals subst h
    all_goals simp only [setRecv, modify, Function.update_apply]
    all_goals grind -linarith [RecvPc.Pushes]
  | send j | stop =>
    simp only [step, sendStep, stopStep] at h
    repeat' split at h
    all_goals simp only [Option.some.injEq, reduceCtorEq] at h
    all_goals subst h
    all_goals simp only [setSend, setStop, modify, Function.update_apply]
    all_goals grind -linarith

/-- `SendMsg` queues nothing for a session that is not active. -/
theorem step_pushes (h : s.step (t, x) = some s') (ha : (s.sess r).active = false) (hp : ∀ j, ¬ (s.recv j).Pushes r)
    (j : ℕ) : ¬ (s'.recv j).Pushes r := by
  by_cases ht : t = .recv j
  · subst ht
    have hj := hp j
    simp only [step, recvStep] at h
    repeat' split at h
    all_goals simp only [Option.some.injEq, reduceCtorEq] at h
    all_goals subst h
    all_goals simp only [setRecv, modify, Function.update_self]
    all_goals grind -linarith [RecvPc.Pushes]
  · rw [(step_pc h).recv j ht]
    exact hp j

/-! ## What a step of `Stop` does -/

theorem stopStep_left (h : s.stopStep x = some s') (hl : s.stop.Left r) (hn : ¬ s'.stop.Left r) :
    s.stop = .lock ∧ r ∉ s.clients ∨ ∃ rest, s.stop = .reunlockTx r rest := by
  unfold stopStep at h
  repeat' split at h
  all_goals simp only [Option.some.injEq, reduceCtorEq] at h
  all_goals subst h
  all_goals simp only [StopPc.Left, StopPc.Before, StopPc.sessions, setStop, modify, *] at hl hn ⊢
  all_goals grind -linarith

theorem stopStep_hand (h : s.stopStep x = some s') :
    (r ∈ s'.stop.cleared → r ∈ s.stop.cleared ∨ (s'.sess r).active = false) ∧
      (r ∈ s'.stop.closed → r ∈ s.stop.closed ∨ (s'.sess r).valid = false) ∧
      (r ∈ s'.stop.recvJoined → r ∈ s.stop.recvJoined ∨ ((s.sess r).recvStarted = true → s.recv r = .done)) ∧
      (r ∈ s'.stop.sendJoined → r ∈ s.stop.sendJoined ∨ ((s.sess r).sendStarted = true → s.send r = .done)) ∧
      (r ∈ s'.stop.emptied → r ∈ s.stop.emptied ∨ (s'.sess r).txQueue = []) ∧
      (r ∈ s'.stop.zeroed → r ∈ s.stop.zeroed ∨ (s'.sess r).txBytesQueued = 0) := by
  unfold stopStep at h
  repeat' split at h
  all_goals simp only [Option.some.injEq, reduceCtorEq] at h
  all_goals subst h
  all_goals simp only [StopPc.cleared, StopPc.closed, StopPc.recvJoined, StopPc.sendJoined, StopPc.emptied,
    StopPc.zeroed, setStop, modify, Function.update_apply, *]
  all_goals grind -linarith

/-! ## The sessions that there are -/

/-- `ClientSession::Start` has still to create the receiving, or the sending, thread. -/
def BeforeRecv (s : Server) (r : ℕ) : Prop := ∃ k, s.accept k = .startActive r ∨ s.accept k = .startRecv r

def BeforeSend (s : Server) (r : ℕ) : Prop :=
  ∃ k, s.accept k = .startActive r ∨ s.accept k = .startRecv r ∨ s.accept k = .startSend r

/-- Every session is in `m_clients`, on its way there, or has finished; and `Start` has been called on it. -/
structure Tracked (s : Server) : Prop where
  known : ∀ r < s.count, r ∈ s.clients ∨ (∃ k, r ∈ (s.accept k).session) ∨ s.stop = .unlock ∨ s.stop = .done
  recv : ∀ r < s.count, (s.sess r).recvStarted = true ∨ s.BeforeRecv r
  send : ∀ r < s.count, (s.sess r).sendStarted = true ∨ s.BeforeSend r

theorem acceptStep_tracked {k : ℕ} (h : s.acceptStep k x = some s') :
    (∀ r ∈ s.clients, r ∈ s'.clients) ∧ (∀ r ∈ (s.accept k).session, r ∈ (s'.accept k).session ∨ r ∈ s'.clients) ∧
      ∀ r < s'.count, r < s.count ∨ s'.accept k = .startActive r := by
  unfold acceptStep at h
  repeat' split at h
  all_goals simp only [Option.some.injEq, reduceCtorEq] at h
  all_goals subst h
  all_goals simp only [setAccept, modify, Function.update_self, AcceptPc.session, *]
  all_goals grind -linarith

theorem acceptStep_starts {k : ℕ} (h : s.acceptStep k x = some s') (hr : r < s.count) :
    ((s.sess r).recvStarted = true → (s'.sess r).recvStarted = true) ∧
      ((s.sess r).sendStarted = true → (s'.sess r).sendStarted = true) ∧
      (s.accept k = .startActive r → s'.accept k = .startRecv r) ∧
      (s.accept k = .startRecv r → (s'.sess r).recvStarted = true ∧ s'.accept k = .startSend r) ∧
      (s.accept k = .startSend r → (s'.sess r).sendStarted = true) := by
  unfold acceptStep at h
  repeat' split at h
  all_goals simp only [Option.some.injEq, reduceCtorEq] at h
  all_goals subst h
  all_goals simp only [setAccept, modify, Function.update_self, Function.update_apply, *]
  all_goals grind -linarith

theorem step_starts (h : s.step (t, x) = some s') (ht : ∀ k, t ≠ .accept k) :
    (s'.sess r).recvStarted = (s.sess r).recvStarted ∧ (s'.sess r).sendStarted = (s.sess r).sendStarted := by
  cases t <;> simp only [step, recvStep, sendStep, stopStep] at h
  case accept k => exact absurd rfl (ht k)
  all_goals repeat' split at h
  all_goals simp only [Option.some.injEq, reduceCtorEq] at h
  all_goals subst h
  all_goals simp only [setRecv, setSend, setStop, modify, Function.update_apply]
  all_goals grind -linarith

theorem stopStep_tracked (h : s.stopStep x = some s') :
    s'.clients = s.clients ∧ ¬ (s.stop = .unlock ∨ s.stop = .done) ∨ s'.stop = .unlock ∨ s'.stop = .done := by
  unfold stopStep at h
  repeat' split at h
  all_goals simp only [Option.some.injEq, reduceCtorEq] at h
  all_goals subst h
  all_goals simp [setStop, modify, *]

theorem stopStep_empties (h : s.stopStep x = some s') (hc : s.stop = .unlock ∨ s.stop = .done → s.clients = [])
    (hp : s'.stop = .unlock ∨ s'.stop = .done) : s'.clients = [] := by
  unfold stopStep at h
  repeat' split at h
  all_goals simp only [Option.some.injEq, reduceCtorEq] at h
  all_goals subst h
  all_goals simp_all [setStop, modify]

theorem Tracked.step (hk : s.Tracked) (h : s.step (t, x) = some s') : s'.Tracked := by
  obtain ⟨hknown, hrecv, hsend⟩ := hk
  have hpc := step_pc h
  by_cases ht : ∃ k, t = .accept k
  · obtain ⟨k, rfl⟩ := ht
    obtain ⟨hclients, hsession, hcount⟩ := acceptStep_tracked h
    have hother : ∀ l, l ≠ k → s'.accept l = s.accept l := fun l hl => hpc.accept l (by simpa [eq_comm] using hl)
    have hstop := hpc.stop nofun
    refine ⟨fun r hr => ?_, fun r hr => ?_, fun r hr => ?_⟩
    all_goals rcases hcount r hr with hr | hnew
    · rcases hknown r hr with h1 | ⟨l, hl⟩ | h1
      · exact .inl (hclients r h1)
      · by_cases hlk : l = k
        · subst hlk
          rcases hsession r hl with h2 | h2
          · exact .inr (.inl ⟨l, h2⟩)
          · exact .inl h2
        · exact .inr (.inl ⟨l, hother l hlk ▸ hl⟩)
      · exact .inr (.inr (hstop ▸ h1))
    · exact .inr (.inl ⟨k, by rw [hnew]; rfl⟩)
    · obtain ⟨hkeep, -, hactive, hstart, -⟩ := acceptStep_starts h hr
      rcases hrecv r hr with h1 | ⟨l, hl⟩
      · exact .inl (hkeep h1)
      · by_cases hlk : l = k
        · subst hlk
          rcases hl with hl | hl
          · exact .inr ⟨l, .inr (hactive hl)⟩
          · exact .inl (hstart hl).1
        · exact .inr ⟨l, hother l hlk ▸ hl⟩
    · exact .inr ⟨k, .inl hnew⟩
    · obtain ⟨-, hkeep, hactive, hstart, hlast⟩ := acceptStep_starts h hr
      rcases hsend r hr with h1 | ⟨l, hl⟩
      · exact .inl (hkeep h1)
      · by_cases hlk : l = k
        · subst hlk
          rcases hl with hl | hl | hl
          · exact .inr ⟨l, .inr (.inl (hactive hl))⟩
          · exact .inr ⟨l, .inr (.inr (hstart hl).2)⟩
          · exact .inl (hlast hl)
        · exact .inr ⟨l, hother l hlk ▸ hl⟩
    · exact .inr ⟨k, .inl hnew⟩
  · have ht : ∀ k, t ≠ .accept k := fun k hk => ht ⟨k, hk⟩
    have haccept : s'.accept = s.accept := funext fun k => hpc.accept k (ht k)
    have hcount : s'.count = s.count := by
      cases t with
      | accept k => exact absurd rfl (ht k)
      | recv i => exact (recvStep_frame h).1
      | send i => exact (sendStep_frame h).1
      | stop => exact (stopStep_frame h).1
    have hstarts := fun r => step_starts (r := r) h ht
    refine ⟨fun r hr => ?_, fun r hr => ?_, fun r hr => ?_⟩
    all_goals rw [hcount] at hr
    · rw [haccept]
      cases t with
      | accept k => exact absurd rfl (ht k)
      | recv i =>
        rw [(recvStep_frame h).2.1, hpc.stop nofun]
        exact hknown r hr
      | send i =>
        rw [(sendStep_frame h).2.1, hpc.stop nofun]
        exact hknown r hr
      | stop =>
        rcases stopStep_tracked h with ⟨hclients, hlast⟩ | hlast
        · rw [hclients]
          rcases hknown r hr with h1 | h1 | h1
          · exact .inl h1
          · exact .inr (.inl h1)
          · exact absurd h1 hlast
        · exact .inr (.inr hlast)
    · rw [(hstarts r).1, BeforeRecv, haccept]
      exact hrecv r hr
    · rw [(hstarts r).2, BeforeSend, haccept]
      exact hsend r hr

/-! ## The invariant -/

/-- The session is over. -/
structure Finished (s : Server) (r : ℕ) : Prop where
  active : (s.sess r).active = false
  valid : (s.sess r).valid = false
  recv : s.recv r = .done
  send : s.send r = .done
  queue : (s.sess r).txQueue = []
  bytes : (s.sess r).txBytesQueued = 0
  pushes : ∀ j, ¬ (s.recv j).Pushes r

/-- What `Stop` has done up to its position. -/
structure WoundUp (s : Server) : Prop where
  finished : ∀ r < s.count, ¬ s.stop.Left r → s.Finished r
  cleared : ∀ r ∈ s.stop.cleared, (s.sess r).active = false
  closed : ∀ r ∈ s.stop.closed, (s.sess r).valid = false
  recvJoined : ∀ r ∈ s.stop.recvJoined, s.recv r = .done
  sendJoined : ∀ r ∈ s.stop.sendJoined, s.send r = .done
  emptied : ∀ r ∈ s.stop.emptied, (s.sess r).txQueue = []
  zeroed : ∀ r ∈ s.stop.zeroed, (s.sess r).txBytesQueued = 0

theorem done_stays (h : s.step (t, x) = some s') :
    (s.recv r = .done → s'.recv r = .done) ∧ (s.send r = .done → s'.send r = .done) := by
  refine ⟨fun hd => ?_, fun hd => ?_⟩
  · by_cases ht : t = .recv r
    · subst ht
      simp [step, recvStep, hd] at h
    · rw [(step_pc h).recv r ht, hd]
  · by_cases ht : t = .send r
    · subst ht
      simp [step, sendStep, hd] at h
    · rw [(step_pc h).send r ht, hd]

/-- Once the accept threads are at their ends, no session becomes active again. -/
theorem inactive_stays (h : s.step (t, x) = some s') (ht : ∀ k, t ≠ .accept k) (ha : (s.sess r).active = false) :
    (s'.sess r).active = false := by
  cases ha' : (s'.sess r).active with
  | false => rfl
  | true =>
    rcases step_active h ha' with h1 | ⟨k, hk, -⟩
    · rw [ha] at h1
      cases h1
    · exact absurd hk (ht k)

theorem Finished.step (he : s.Finished r) (h : s.step (t, x) = some s') (ht : ∀ k, t ≠ .accept k) : s'.Finished r where
  active := inactive_stays h ht he.active
  valid := step_valid h ht he.valid
  recv := (done_stays h).1 he.recv
  send := (done_stays h).2 he.send
  queue := (step_emptied h ht he.pushes).1 he.queue
  bytes := (step_emptied h ht he.pushes).2 he.bytes
  pushes := step_pushes h he.active he.pushes

/-- While `Stop` is in the second critical section of the session, no `SendMsg` queues anything there. -/
theorem not_pushes (hown : Owned (s.sess r).txMutex (s.HoldsTx r)) (hr : r ∈ s.stop.emptied) (j : ℕ) :
    ¬ (s.recv j).Pushes r := by
  intro hp
  have hstop : s.HoldsTx r .stop := by
    unfold StopPc.emptied at hr
    split at hr
    all_goals simp_all [HoldsTx, StopPc.holdsTx]
  have hrecv : s.HoldsTx r (.recv j) := by
    unfold RecvPc.Pushes at hp
    split at hp
    all_goals simp_all [HoldsTx, RecvPc.holdsTx]
  cases hown.excl hstop hrecv

theorem woundUp_of_before (hb : s.stop.Before) : s.WoundUp := by
  refine ⟨fun r _ hr => absurd (.inl hb) hr, fun r hr => ?_, fun r hr => ?_, fun r hr => ?_, fun r hr => ?_, fun r hr => ?_,
    fun r hr => ?_⟩
  all_goals
    unfold StopPc.Before at hb
    split at hb
    all_goals simp_all [StopPc.cleared, StopPc.closed, StopPc.recvJoined, StopPc.sendJoined, StopPc.emptied, StopPc.zeroed]

theorem before_of_not_joined {k : ℕ} (h : ¬ s.stop.Joined k) : s.stop.Before := by
  unfold StopPc.Joined at h
  split at h
  all_goals simp_all [StopPc.Before]

/-- When `Stop` has the sessions in hand, they have been started. -/
theorem Tracked.started (hk : s.Tracked) (hd : s.AcceptDone) (hr : r < s.count) (hb : ¬ s.stop.Before) :
    (s.sess r).recvStarted = true ∧ (s.sess r).sendStarted = true := by
  have hdone : ∀ k, s.accept k = .done := fun k => hd k (.inr (by_contra fun hj => hb (before_of_not_joined hj)))
  refine ⟨(hk.recv r hr).resolve_right ?_, (hk.send r hr).resolve_right ?_⟩
  · rintro ⟨k, hp⟩
    simp [hdone k] at hp
  · rintro ⟨k, hp⟩
    simp [hdone k] at hp

/-- The session that `Stop` has joined has finished. -/
theorem WoundUp.finished_in_hand {rest : List ℕ} (hs : s.WoundUp) (hown : Owned (s.sess r).txMutex (s.HoldsTx r))
    (hp : s.stop = .reunlockTx r rest) : s.Finished r where
  active := hs.cleared r (by rw [hp]; rfl)
  valid := hs.closed r (by rw [hp]; rfl)
  recv := hs.recvJoined r (by rw [hp]; rfl)
  send := hs.sendJoined r (by rw [hp]; rfl)
  queue := hs.emptied r (by rw [hp]; rfl)
  bytes := hs.zeroed r (by rw [hp]; rfl)
  pushes := not_pushes hown (by rw [hp]; rfl)

theorem mem_sessions {p : StopPc} (h : r ∈ p.recvJoined ∨ r ∈ p.sendJoined) : r ∈ p.sessions ∧ ¬ p.Before := by
  cases p <;> simp_all [StopPc.recvJoined, StopPc.sendJoined, StopPc.sessions, StopPc.Before]

theorem mem_emptied {p : StopPc} (h : r ∈ p.zeroed) : r ∈ p.emptied := by
  cases p <;> simp_all [StopPc.zeroed, StopPc.emptied]

theorem WoundUp.step (hs : s.WoundUp) (hk : s.Tracked) (hk' : s'.Tracked) (hd : s.AcceptDone) (hd' : s'.AcceptDone)
    (hf' : s'.Fresh) (hown : ∀ r, Owned (s.sess r).txMutex (s.HoldsTx r)) (h : s.step (t, x) = some s') : s'.WoundUp := by
  have hpc := step_pc h
  by_cases ht : ∃ k, t = .accept k
  · -- an accept thread runs only before `Stop` has the sessions in hand
    obtain ⟨k, rfl⟩ := ht
    refine woundUp_of_before (before_of_not_joined (k := k) fun hj => ?_)
    have hdone := hd k (.inr (hpc.stop nofun ▸ hj))
    simp [Server.step, acceptStep, hdone] at h
  have ht : ∀ k, t ≠ .accept k := fun k hk => ht ⟨k, hk⟩
  have hcount : s'.count = s.count := by
    cases t with
    | accept k => exact absurd rfl (ht k)
    | recv i => exact (recvStep_frame h).1
    | send i => exact (sendStep_frame h).1
    | stop => exact (stopStep_frame h).1
  have hhand : t ≠ .stop ∧ s'.stop = s.stop ∨ t = .stop ∧ s.stopStep x = some s' := by
    by_cases hstop : t = .stop
    · subst hstop
      exact .inr ⟨rfl, h⟩
    · exact .inl ⟨hstop, hpc.stop hstop⟩
  have hkeep : ∀ (f : StopPc → Option ℕ) (P : ℕ → Prop), (∀ r, s.stopStep x = some s' → r ∈ f s'.stop → r ∈ f s.stop ∨ P r) →
      (∀ r ∈ f s.stop, P r) → ∀ r ∈ f s'.stop, P r := by
    intro f P hstep hold r hr
    rcases hhand with ⟨-, he⟩ | ⟨-, hst⟩
    · exact hold r (he ▸ hr)
    · exact (hstep r hst hr).elim (hold r) id
  refine ⟨fun r hr hl => ?_, ?_, ?_, fun r hr => ?_, fun r hr => ?_, ?_, ?_⟩
  · rw [hcount] at hr
    by_cases hl' : s.stop.Left r
    · rcases hhand with ⟨-, he⟩ | ⟨-, hst⟩
      · exact absurd (he ▸ hl') hl
      · rcases stopStep_left hst hl' hl with ⟨hlock, hout⟩ | ⟨rest, hp⟩
        · rcases hk.known r hr with h1 | ⟨k, h1⟩ | h1
          · exact absurd h1 hout
          · rw [hd k (.inr (by rw [hlock]; trivial))] at h1
            cases h1
          · simp [hlock] at h1
        · exact (hs.finished_in_hand (hown r) hp).step h ht
    · exact (hs.finished r hr hl').step h ht
  · exact hkeep StopPc.cleared _ (fun r hst hr => (stopStep_hand hst).1 hr) fun r hr => inactive_stays h ht (hs.cleared r hr)
  · exact hkeep StopPc.closed _ (fun r hst hr => (stopStep_hand hst).2.1 hr) fun r hr => step_valid h ht (hs.closed r hr)
  · obtain ⟨hmem, hb⟩ := mem_sessions (.inl hr)
    have hstarted := (hk'.started hd' (hf'.stop r hmem) hb).1
    rw [(step_starts h ht).1] at hstarted
    refine hkeep StopPc.recvJoined (fun r => (s.sess r).recvStarted = true → s'.recv r = .done) (fun r hst hr => ?_)
      (fun r hr _ => (done_stays h).1 (hs.recvJoined r hr)) r hr hstarted
    exact ((stopStep_hand hst).2.2.1 hr).imp_right fun hdone hst' => (done_stays h).1 (hdone hst')
  · obtain ⟨hmem, hb⟩ := mem_sessions (.inr hr)
    have hstarted := (hk'.started hd' (hf'.stop r hmem) hb).2
    rw [(step_starts h ht).2] at hstarted
    refine hkeep StopPc.sendJoined (fun r => (s.sess r).sendStarted = true → s'.send r = .done) (fun r hst hr => ?_)
      (fun r hr _ => (done_stays h).2 (hs.sendJoined r hr)) r hr hstarted
    exact ((stopStep_hand hst).2.2.2.1 hr).imp_right fun hdone hst' => (done_stays h).2 (hdone hst')
  · exact hkeep StopPc.emptied _ (fun r hst hr => (stopStep_hand hst).2.2.2.2.1 hr) fun r hr =>
      (step_emptied h ht (not_pushes (hown r) hr)).1 (hs.emptied r hr)
  · exact hkeep StopPc.zeroed _ (fun r hst hr => (stopStep_hand hst).2.2.2.2.2 hr) fun r hr =>
      (step_emptied h ht (not_pushes (hown r) (mem_emptied hr))).2 (hs.zeroed r hr)

/-- `Stop` has let go of the sessions. -/
structure Over (s : Server) : Prop where
  clients : s.clients = []
  sessions : ∀ r < s.count, s.Finished r
  still : ∀ t x, s.step (t, x) = none

end Server

/-! ## Runs -/

variable {s : Server}

theorem tracked {ok : Server → Thread × Input → Prop} (h : server.Reach ok s) : s.Tracked := by
  refine h.invariant Server.Tracked ?_ fun s ⟨t, x⟩ s' _ hk _ hst => hk.step hst
  rintro s ⟨n, rfl⟩
  exact ⟨nofun, nofun, nofun⟩

theorem woundUp {ok : Server → Thread × Input → Prop} (h : server.Reach ok s) : s.WoundUp := by
  refine h.invariant Server.WoundUp ?_ fun s ⟨t, x⟩ s' hr hs ho hst => ?_
  · rintro s ⟨n, rfl⟩
    exact Server.woundUp_of_before trivial
  · have hr' := hr.step ho hst
    exact hs.step (tracked hr) (tracked hr') (acceptDone hr) (acceptDone hr') (fresh hr') (tx_owned hr) hst

/-- `Stop` empties `m_clients` last. -/
theorem stopped_clients {ok : Server → Thread × Input → Prop} (h : server.Reach ok s) (hd : s.stop = .done) :
    s.clients = [] := by
  refine h.invariant (fun s => s.stop = .unlock ∨ s.stop = .done → s.clients = []) ?_
    (fun s ⟨t, x⟩ s' hr hc _ hst hp => ?_) (.inr hd)
  · rintro s ⟨n, rfl⟩ _
    rfl
  · replace hst : s.step (t, x) = some s' := hst
    cases t with
    | accept k =>
      rw [(Server.step_pc hst).stop (by simp)] at hp
      have hj : s.stop.Joined k := by rcases hp with hp | hp <;> rw [hp] <;> trivial
      simp [Server.step, Server.acceptStep, acceptDone hr k (.inr hj)] at hst
    | recv i =>
      rw [(Server.step_pc hst).stop (by simp)] at hp
      exact (Server.recvStep_frame hst).2.1 ▸ hc hp
    | send i =>
      rw [(Server.step_pc hst).stop (by simp)] at hp
      exact (Server.sendStep_frame hst).2.1 ▸ hc hp
    | stop => exact Server.stopStep_empties hst hc hp

/-- Once `Stop` has returned the server is over. -/
theorem stopped {ok : Server → Thread × Input → Prop} (h : server.Reach ok s) (hd : s.stop = .done) : s.Over := by
  have haccept : ∀ k, s.accept k = .done := fun k => acceptDone h k (.inr (by rw [hd]; trivial))
  have hfinished : ∀ r < s.count, s.Finished r := fun r hr =>
    (woundUp h).finished r hr (by simp [StopPc.Left, StopPc.Before, StopPc.sessions, hd])
  refine ⟨stopped_clients h hd, hfinished, fun t x => ?_⟩
  cases t with
  | accept k => simp [Server.step, Server.acceptStep, haccept k]
  | recv i =>
    by_cases hi : i < s.count
    · simp [Server.step, Server.recvStep, (hfinished i hi).recv]
    · obtain ⟨hnew, hoff, -⟩ := (fresh h).blank i (by omega)
      cases x <;> simp [Server.step, Server.recvStep, hoff, hnew, Session.new]
  | send i =>
    by_cases hi : i < s.count
    · simp [Server.step, Server.sendStep, (hfinished i hi).send]
    · obtain ⟨hnew, -, hoff⟩ := (fresh h).blank i (by omega)
      cases x <;> simp [Server.step, Server.sendStep, hoff, hnew, Session.new]
  | stop => simp [Server.step, Server.stopStep, hd]

/-- `Stop` ends the session of a client that has sent a message and closed: the message is broadcast before `Stop` takes
`m_clientsMutex`. -/
def stopAfterCast : List (Thread × Input) :=
  connect (frame [104]) ++
    [(Thread.recv 0, Input.go), (Thread.recv 0, Input.go), (Thread.recv 0, Input.count 4),
      (Thread.recv 0, Input.count 1)] ++ List.replicate 5 (Thread.recv 0, Input.go) ++ stopToJoin ++
    [(Thread.recv 0, Input.closed)] ++ List.replicate 5 (Thread.recv 0, Input.go) ++
    List.replicate 5 (Thread.send 0, Input.go) ++ List.replicate 9 (Thread.stop, Input.go)

theorem stopped_stopAfterCast : ∃ s, server.run (.start 1) stopAfterCast = some s ∧ s.stop = .done ∧ s.Over := by
  have hrun : (server.run (.start 1) stopAfterCast).map Server.stop = some .done := by decide +kernel
  rw [Option.map_eq_some_iff] at hrun
  obtain ⟨s, hs, hd⟩ := hrun
  exact ⟨s, hs, hd, stopped (System.reachable_of_run ⟨1, rfl⟩ hs) hd⟩

end TcpChat.FramingServer
