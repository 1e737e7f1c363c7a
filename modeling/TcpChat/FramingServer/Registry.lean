import TcpChat.FramingServer.Model

/-!
# The sessions of the framing server

* `step_pc`, `acceptStep_frame`, `recvStep_frame`, `sendStep_frame`, `stopStep_frame` — what a step leaves alone;
* `Fresh` — only sessions that have been made occur anywhere in the state;
* `Registered` — every session is put into `m_clients` once;
* `step_active`, `step_inactive` — which steps set and clear `m_active`;
* `AcceptDone` — a joined accept thread stays at its end;
* `fresh`, `registered`, `acceptDone` — they hold in every reachable state.
-/

namespace TcpChat.FramingServer

open TcpChat.Framing TcpChat.Lib

/-! ## What a thread has at hand -/

/-- The session that an accept thread is making. -/
def AcceptPc.session : AcceptPc → Option ℕ
  | .startActive i | .startRecv i | .startSend i | .lock i | .push i => some i
  | _ => none

/-- The recipients that a `RecvLoop` has at hand. -/
def RecvPc.dests : RecvPc → List ℕ
  | .castUnlock _ snapshot | .cast _ snapshot => snapshot
  | .sendTest c | .sendLock c | .sendPred c | .sendPark c | .sendParked c | .sendRetest c | .sendPush c
  | .sendAdd c | .sendUnlock c | .sendReturn c | .sendNotify c => c.dest :: c.rest
  | _ => []

/-- The message that a `RecvLoop` is broadcasting. -/
def RecvPc.msg : RecvPc → Option (List UInt8)
  | .castLock msg | .castCopy msg | .castUnlock msg _ | .cast msg _ => some msg
  | .sendTest c | .sendLock c | .sendPred c | .sendPark c | .sendParked c | .sendRetest c | .sendPush c
  | .sendAdd c | .sendUnlock c | .sendReturn c | .sendNotify c => some c.msg
  | _ => none

/-- The message that a `SendLoop` is about to hand to `send_frame`. -/
def SendPc.popped : SendPc → Option Msg
  | .sub msg | .notify msg | .unlock msg => some msg
  | _ => none

def StopPc.sessions : StopPc → List ℕ
  | .next rest => rest
  | .store i rest | .lockTx i rest | .notifyEmpty i rest | .notifyFull i rest | .unlockTx i rest | .shutdown i rest
  | .frame i rest _ | .close i rest | .joinRecv i rest | .joinSend i rest | .relockTx i rest | .clear i rest
  | .zero i rest | .reunlockTx i rest => i :: rest
  | _ => []

/-- `Stop` has joined the accept thread `k`. -/
def StopPc.Joined (k : ℕ) : StopPc → Prop
  | .idle | .closeListeners => False
  | .joinAccept n => k < n
  | _ => True

namespace Server

/-- The positions of all threads but `t` are the same. -/
structure SamePc (t : Thread) (s s' : Server) : Prop where
  accept : ∀ k, t ≠ .accept k → s'.accept k = s.accept k
  recv : ∀ i, t ≠ .recv i → s'.recv i = s.recv i
  send : ∀ i, t ≠ .send i → s'.send i = s.send i
  stop : t ≠ .stop → s'.stop = s.stop

variable {s s' : Server} {t : Thread} {x : Input}

theorem step_pc (h : s.step (t, x) = some s') : SamePc t s s' := by
  cases t <;> simp only [step, acceptStep, recvStep, sendStep, stopStep] at h
  all_goals repeat' split at h
  all_goals simp only [Option.some.injEq, reduceCtorEq] at h
  all_goals subst h
  all_goals refine ⟨fun k hk => ?_, fun j hj => ?_, fun j hj => ?_, fun hs => ?_⟩
  all_goals first
    | rfl
    | contradiction
    | exact Function.update_of_ne (by rintro rfl; contradiction) _ _

/-! ## What a step leaves alone -/

/-- Only sessions that have been made occur in the state. -/
structure Fresh (s : Server) : Prop where
  clients : ∀ r ∈ s.clients, r < s.count
  accept : ∀ k, ∀ r ∈ (s.accept k).session, r < s.count
  recv : ∀ i, ∀ r ∈ (s.recv i).dests, r < s.count
  stop : ∀ r ∈ s.stop.sessions, r < s.count
  since : ∀ i r, s.count ≤ r → (s.sess i).since r = none
  blank : ∀ r, s.count ≤ r → s.sess r = Session.new [] ∧ s.recv r = .off ∧ s.send r = .off

/-- Every session is in `m_clients` once, or is being made by one accept thread. -/
structure Registered (s : Server) : Prop where
  nodup : s.clients.Nodup
  pending : ∀ k, ∀ r ∈ (s.accept k).session, r ∉ s.clients
  one : ∀ k l, ∀ r ∈ (s.accept k).session, r ∈ (s.accept l).session → k = l

theorem acceptStep_frame {k : ℕ} (h : s.acceptStep k x = some s') :
    s.count ≤ s'.count ∧ (∀ r ∈ s'.clients, r ∈ s.clients ∨ r ∈ (s.accept k).session) ∧
    (∀ r ∈ (s'.accept k).session, r ∈ (s.accept k).session ∨ r = s.count ∧ r < s'.count) ∧
    (∀ r, s'.count ≤ r → r ∉ (s.accept k).session → s'.sess r = s.sess r) ∧
    ∀ i r, (s'.sess i).since r = (s.sess i).since r ∨ (s'.sess i).since r = none := by
  unfold acceptStep at h
  repeat' split at h
  all_goals simp only [Option.some.injEq, reduceCtorEq] at h
  all_goals subst h
  all_goals simp only [setAccept, modify, Function.update_self, Function.update_apply, AcceptPc.session, *]
  -- `m_active` and the like are `Bool`s, for which `grind` would search an ordered ring in every case
  all_goals grind -linarith [Session.new, AcceptPc.session]

theorem recvStep_frame {i : ℕ} (h : s.recvStep i x = some s') :
    s'.count = s.count ∧ s'.clients = s.clients ∧
    (∀ r ∈ (s'.recv i).dests, r ∈ (s.recv i).dests ∨ r ∈ s.clients) ∧
    (∀ r, r ≠ i → r ∉ (s.recv i).dests → s'.sess r = s.sess r) ∧
    (∀ j, (s'.sess j).since = (s.sess j).since ∨
      ∃ n, (s'.sess j).since = noteSince (s.sess j).since n (s.clients.filter fun r => r ≠ i)) ∧
    (s.recv i = .off → (s.sess i).recvStarted = true) := by
  unfold recvStep at h
  repeat' split at h
  all_goals simp only [Option.some.injEq, reduceCtorEq] at h
  all_goals subst h
  all_goals simp only [setRecv, modify, Function.update_self, Function.update_apply, RecvPc.dests, *]
  all_goals grind -linarith

theorem sendStep_frame {i : ℕ} (h : s.sendStep i x = some s') :
    s'.count = s.count ∧ s'.clients = s.clients ∧ (∀ r, r ≠ i → s'.sess r = s.sess r) ∧
    (∀ j, (s'.sess j).since = (s.sess j).since) ∧ (s.send i = .off → (s.sess i).sendStarted = true) := by
  unfold sendStep at h
  repeat' split at h
  all_goals simp only [Option.some.injEq, reduceCtorEq] at h
  all_goals subst h
  all_goals simp only [setSend, modify, Function.update_apply, *]
  all_goals grind -linarith

theorem stopStep_frame (h : s.stopStep x = some s') :
    s'.count = s.count ∧ (∀ r ∈ s'.clients, r ∈ s.clients) ∧
    (∀ r ∈ s'.stop.sessions, r ∈ s.stop.sessions ∨ r ∈ s.clients) ∧
    (∀ r, r ∉ s.stop.sessions → s'.sess r = s.sess r) ∧ ∀ j, (s'.sess j).since = (s.sess j).since := by
  unfold stopStep at h
  repeat' split at h
  all_goals simp only [Option.some.injEq, reduceCtorEq] at h
  all_goals subst h
  all_goals simp only [setStop, modify, Function.update_apply, StopPc.sessions, *]
  all_goals grind -linarith

/-! ## The invariants -/

theorem Fresh.accept_step {k : ℕ} (hf : s.Fresh) (h : s.acceptStep k x = some s') : s'.Fresh := by
  have hpc := step_pc (t := .accept k) h
  obtain ⟨hc, hcl, hses, hsess, hsince⟩ := acceptStep_frame h
  have hk := hf.accept k
  refine ⟨fun r hr => ?_, fun l r hr => ?_, fun i r hr => ?_, fun r hr => ?_, fun i r hr => ?_, fun r hr => ?_⟩
  · rcases hcl r hr with h1 | h1
    · exact (hf.clients r h1).trans_le hc
    · exact (hk r h1).trans_le hc
  · by_cases hl : l = k
    · subst hl
      rcases hses r hr with h1 | ⟨-, h1⟩
      · exact (hk r h1).trans_le hc
      · exact h1
    · rw [hpc.accept l (by simpa [eq_comm] using hl)] at hr
      exact (hf.accept l r hr).trans_le hc
  · rw [hpc.recv i (by simp)] at hr
    exact (hf.recv i r hr).trans_le hc
  · rw [hpc.stop (by simp)] at hr
    exact (hf.stop r hr).trans_le hc
  · rcases hsince i r with h1 | h1
    · exact h1.trans (hf.since i r (hc.trans hr))
    · exact h1
  · have hr' := hc.trans hr
    have hne : r ∉ (s.accept k).session := fun h1 => by have := hk r h1; omega
    rw [hsess r hr hne, hpc.recv r (by simp), hpc.send r (by simp)]
    exact hf.blank r hr'

/-- A step that makes no session. -/
theorem Fresh.keep (hf : s.Fresh) (hc : s'.count = s.count) (hcl : ∀ r ∈ s'.clients, r ∈ s.clients)
    (hacc : ∀ k, s'.accept k = s.accept k) (hrecv : ∀ i, ∀ r ∈ (s'.recv i).dests, r < s.count)
    (hstop : ∀ r ∈ s'.stop.sessions, r < s.count) (hsince : ∀ i r, s.count ≤ r → (s'.sess i).since r = none)
    (hblank : ∀ r, s.count ≤ r → s'.sess r = s.sess r ∧ s'.recv r = s.recv r ∧ s'.send r = s.send r) : s'.Fresh := by
  refine ⟨fun r hr => hc ▸ hf.clients r (hcl r hr), fun k r hr => hc ▸ hf.accept k r (hacc k ▸ hr),
    fun i r hr => hc ▸ hrecv i r hr, fun r hr => hc ▸ hstop r hr, fun i r hr => hsince i r (hc ▸ hr), fun r hr => ?_⟩
  rw [hc] at hr
  obtain ⟨hsess, hrecv, hsend⟩ := hblank r hr
  rw [hsess, hrecv, hsend]
  exact hf.blank r hr

theorem Fresh.recv_step {i : ℕ} (hf : s.Fresh) (h : s.recvStep i x = some s') : s'.Fresh := by
  have hpc := step_pc (t := .recv i) h
  obtain ⟨hc, hcl, hd, hsess, hsince, hoff⟩ := recvStep_frame h
  have hi : i < s.count := by
    by_contra hi
    obtain ⟨h1, h2, -⟩ := hf.blank i (by omega)
    simp [h1, Session.new] at hoff
    exact hoff h2
  refine hf.keep hc (fun r hr => hcl ▸ hr) (fun k => hpc.accept k (by simp)) (fun j r hr => ?_)
    (fun r hr => hf.stop r (hpc.stop (by simp) ▸ hr)) (fun j r hr => ?_) fun r hr => ?_
  · by_cases hj : j = i
    · subst hj
      rcases hd r hr with h1 | h1
      · exact hf.recv j r h1
      · exact hf.clients r h1
    · rw [hpc.recv j (by simpa [eq_comm] using hj)] at hr
      exact hf.recv j r hr
  · have hr' : r ∉ s.clients := fun h1 => by have := hf.clients r h1; omega
    rcases hsince j with h1 | ⟨n, h1⟩
    · rw [h1]
      exact hf.since j r hr
    · simp [h1, noteSince, hf.since j r hr, hr']
  · have hd' : r ∉ (s.recv i).dests := fun h1 => by have := hf.recv i r h1; omega
    have hri : r ≠ i := by omega
    exact ⟨hsess r hri hd', hpc.recv r (by simpa [eq_comm] using hri), hpc.send r (by simp)⟩

theorem Fresh.send_step {i : ℕ} (hf : s.Fresh) (h : s.sendStep i x = some s') : s'.Fresh := by
  have hpc := step_pc (t := .send i) h
  obtain ⟨hc, hcl, hsess, hsince, hoff⟩ := sendStep_frame h
  have hi : i < s.count := by
    by_contra hi
    obtain ⟨h1, -, h2⟩ := hf.blank i (by omega)
    simp [h1, Session.new] at hoff
    exact hoff h2
  refine hf.keep hc (fun r hr => hcl ▸ hr) (fun k => hpc.accept k (by simp))
    (fun j r hr => hf.recv j r (hpc.recv j (by simp) ▸ hr)) (fun r hr => hf.stop r (hpc.stop (by simp) ▸ hr))
    (fun j r hr => ?_) fun r hr => ?_
  · rw [hsince j]
    exact hf.since j r hr
  · have hri : r ≠ i := by omega
    exact ⟨hsess r hri, hpc.recv r (by simp), hpc.send r (by simpa [eq_comm] using hri)⟩

theorem Fresh.stop_step (hf : s.Fresh) (h : s.stopStep x = some s') : s'.Fresh := by
  have hpc := step_pc (t := .stop) h
  obtain ⟨hc, hcl, hses, hsess, hsince⟩ := stopStep_frame h
  refine hf.keep hc hcl (fun k => hpc.accept k (by simp)) (fun j r hr => hf.recv j r (hpc.recv j (by simp) ▸ hr))
    (fun r hr => ?_) (fun j r hr => ?_) fun r hr => ?_
  · rcases hses r hr with h1 | h1
    · exact hf.stop r h1
    · exact hf.clients r h1
  · rw [hsince j]
    exact hf.since j r hr
  · have hne : r ∉ s.stop.sessions := fun h1 => by have := hf.stop r h1; omega
    exact ⟨hsess r hne, hpc.recv r (by simp), hpc.send r (by simp)⟩

theorem Fresh.step (hf : s.Fresh) (h : s.step (t, x) = some s') : s'.Fresh := by
  cases t with
  | accept k => exact hf.accept_step h
  | recv i => exact hf.recv_step h
  | send i => exact hf.send_step h
  | stop => exact hf.stop_step h

/-! ## `m_clients` -/

theorem acceptStep_clients_eq {k : ℕ} (h : s.acceptStep k x = some s') :
    (s'.clients = s.clients ∧ ∀ r ∈ (s'.accept k).session, r ∈ (s.accept k).session ∨ r = s.count) ∨
    ∃ i, (s.accept k).session = some i ∧ s'.clients = s.clients ++ [i] ∧ (s'.accept k).session = none := by
  unfold acceptStep at h
  repeat' split at h
  all_goals simp only [Option.some.injEq, reduceCtorEq] at h
  all_goals subst h
  all_goals simp only [setAccept, modify, Function.update_self, AcceptPc.session, *]
  all_goals simp

theorem stopStep_clients_eq (h : s.stopStep x = some s') : s'.clients = s.clients ∨ s'.clients = [] := by
  unfold stopStep at h
  repeat' split at h
  all_goals simp only [Option.some.injEq, reduceCtorEq] at h
  all_goals subst h
  all_goals simp [setStop, modify]

theorem Registered.accept_step {k : ℕ} (hg : s.Registered) (hf : s.Fresh) (h : s.acceptStep k x = some s') :
    s'.Registered := by
  have hpc := step_pc (t := .accept k) h
  have hother : ∀ l, l ≠ k → s'.accept l = s.accept l := fun l hl => hpc.accept l (by simpa [eq_comm] using hl)
  rcases acceptStep_clients_eq h with ⟨hcl, hses⟩ | ⟨i, hi, hcl, hnone⟩
  · refine ⟨hcl ▸ hg.nodup, fun l r hr => ?_, fun l m r hl hm => ?_⟩
    · rw [hcl]
      by_cases hlk : l = k
      · subst hlk
        rcases hses r hr with h1 | rfl
        · exact hg.pending l r h1
        · exact fun h1 => absurd (hf.clients _ h1) (by omega)
      · exact hg.pending l r (hother l hlk ▸ hr)
    · have key : ∀ l, l ≠ k → r ∈ (s'.accept l).session → r ∈ (s'.accept k).session → False := by
        intro l hlk h1 h2
        rw [hother l hlk] at h1
        rcases hses r h2 with h3 | rfl
        · exact hlk (hg.one l k r h1 h3)
        · have := hf.accept l _ h1; omega
      by_cases hlk : l = k
      · subst hlk
        by_contra hml
        exact key m (Ne.symm hml) hm hl
      · by_cases hmk : m = k
        · subst hmk
          exact (key l hlk hl hm).elim
        · exact hg.one l m r (hother l hlk ▸ hl) (hother m hmk ▸ hm)
  · have hik : i ∈ (s.accept k).session := hi ▸ rfl
    have hsub : ∀ l, ∀ r ∈ (s'.accept l).session, l ≠ k ∧ r ∈ (s.accept l).session := by
      intro l r hr
      by_cases hlk : l = k
      · subst hlk
        simp [hnone] at hr
      · exact ⟨hlk, hother l hlk ▸ hr⟩
    refine ⟨?_, fun l r hr => ?_, fun l m r hl hm => hg.one l m r (hsub l r hl).2 (hsub m r hm).2⟩
    · rw [hcl]
      exact List.nodup_append.2 ⟨hg.nodup, by simp, fun a ha b hb hab =>
        hg.pending k i hik (List.mem_singleton.1 hb ▸ hab ▸ ha)⟩
    · obtain ⟨hlk, hr'⟩ := hsub l r hr
      rw [hcl, List.mem_append, List.mem_singleton]
      rintro (h1 | rfl)
      · exact hg.pending l r hr' h1
      · exact hlk (hg.one l k r hr' hik)

theorem Registered.step (hg : s.Registered) (hf : s.Fresh) (h : s.step (t, x) = some s') : s'.Registered := by
  have hpc := step_pc h
  have hsame : s'.clients = s.clients ∨ s'.clients = [] → (∀ k, s'.accept k = s.accept k) → s'.Registered := by
    intro hcl hacc
    rcases hcl with hcl | hcl
    · exact ⟨hcl ▸ hg.nodup, fun k r hr => hcl ▸ hg.pending k r (hacc k ▸ hr),
        fun k l r hk hl => hg.one k l r (hacc k ▸ hk) (hacc l ▸ hl)⟩
    · exact ⟨by simp [hcl], fun k r hr => by simp [hcl],
        fun k l r hk hl => hg.one k l r (hacc k ▸ hk) (hacc l ▸ hl)⟩
  cases t with
  | accept k => exact hg.accept_step hf h
  | recv i => exact hsame (.inl (recvStep_frame h).2.1) fun k => hpc.accept k (by simp)
  | send i => exact hsame (.inl (sendStep_frame h).2.1) fun k => hpc.accept k (by simp)
  | stop => exact hsame (stopStep_clients_eq h) fun k => hpc.accept k (by simp)

/-! ## `m_active` -/

/-- Only `ClientSession::Start` sets `m_active`. -/
theorem step_active (h : s.step (t, x) = some s') {r : ℕ} (ha : (s'.sess r).active = true) :
    (s.sess r).active = true ∨ ∃ k, t = .accept k ∧ s.accept k = .startActive r := by
  cases t <;> simp only [step, acceptStep, recvStep, sendStep, stopStep] at h
  all_goals repeat' split at h
  all_goals simp only [Option.some.injEq, reduceCtorEq] at h
  all_goals subst h
  all_goals simp only [setAccept, setRecv, setSend, setStop, modify, Function.update_apply] at ha
  all_goals grind -linarith [Session.new]

/-- Only the ends of the two loops and `Stop` clear `m_active`. -/
theorem step_inactive (h : s.step (t, x) = some s') {r : ℕ} (hr : r ≠ s.count) (ha : (s.sess r).active = true) :
    (s'.sess r).active = true ∨ (t = .recv r ∧ s.recv r = .endStore) ∨ (t = .send r ∧ s.send r = .failStore) ∨
      t = .stop := by
  cases t <;> simp only [step, acceptStep, recvStep, sendStep, stopStep] at h
  all_goals repeat' split at h
  all_goals simp only [Option.some.injEq, reduceCtorEq] at h
  all_goals subst h
  all_goals simp only [setAccept, setRecv, setSend, setStop, modify, Function.update_apply]
  all_goals grind -linarith

/-- The threads of the session `r` have been created. -/
def Started (s : Server) (r : ℕ) : Prop :=
  (s.sess r).recvStarted = true ∨ (s.sess r).sendStarted = true ∨ s.recv r ≠ .off ∨ s.send r ≠ .off

theorem step_started (h : s.step (t, x) = some s') {r : ℕ} (hs : s'.Started r) :
    s.Started r ∨ ∃ k, t = .accept k ∧ (s.accept k = .startRecv r ∨ s.accept k = .startSend r) := by
  have hpc := step_pc h
  unfold Started at hs ⊢
  by_cases hown : t = .recv r ∨ t = .send r
  · rcases hown with rfl | rfl
    all_goals simp only [step, recvStep, sendStep] at h
    all_goals repeat' split at h
    all_goals simp only [Option.some.injEq, reduceCtorEq] at h
    all_goals simp_all
  · rw [hpc.recv r fun e => hown (.inl e), hpc.send r fun e => hown (.inr e)] at hs
    cases t <;> simp only [step, acceptStep, recvStep, sendStep, stopStep] at h
    all_goals repeat' split at h
    all_goals simp only [Option.some.injEq, reduceCtorEq] at h
    all_goals subst h
    all_goals simp only [setAccept, setRecv, setSend, setStop, modify, Function.update_apply] at hs
    all_goals grind -linarith [Session.new]

theorem acceptStep_startActive {k r : ℕ} (h : s.acceptStep k x = some s') (hr : s'.accept k = .startActive r) :
    s.accept k = .call ∧ r = s.count := by
  unfold acceptStep at h
  repeat' split at h
  all_goals simp only [Option.some.injEq, reduceCtorEq] at h
  all_goals subst h
  all_goals simp only [setAccept, modify, Function.update_self, AcceptPc.startActive.injEq, reduceCtorEq] at hr
  all_goals grind -linarith

/-! ## The joined accept threads -/

/-- An accept thread that is joined, or was never started, is at its end. -/
def AcceptDone (s : Server) : Prop := ∀ k, s.acceptors ≤ k ∨ s.stop.Joined k → s.accept k = .done

theorem stopStep_joined (h : s.stopStep x = some s') (k : ℕ) :
    s'.acceptors = s.acceptors ∧ (s'.stop.Joined k → s.acceptors ≤ k ∨ s.stop.Joined k ∨ s.accept k = .done) := by
  unfold stopStep at h
  repeat' split at h
  all_goals simp only [Option.some.injEq, reduceCtorEq] at h
  all_goals subst h
  all_goals simp only [setStop, modify, StopPc.Joined, *]
  all_goals grind -linarith

theorem step_acceptors (h : s.step (t, x) = some s') : s'.acceptors = s.acceptors := by
  cases t <;> simp only [step, acceptStep, recvStep, sendStep, stopStep] at h
  all_goals repeat' split at h
  all_goals simp only [Option.some.injEq, reduceCtorEq] at h
  all_goals subst h
  all_goals rfl

theorem AcceptDone.step (hd : s.AcceptDone) (h : s.step (t, x) = some s') : s'.AcceptDone := by
  have hpc := step_pc h
  intro k hk
  rw [step_acceptors h] at hk
  have hdone : s.accept k = .done := by
    by_cases ht : t = .stop
    · subst ht
      rcases hk with hk | hk
      · exact hd k (.inl hk)
      · rcases (stopStep_joined h k).2 hk with h1 | h1 | h1
        · exact hd k (.inl h1)
        · exact hd k (.inr h1)
        · exact h1
    · rw [hpc.stop ht] at hk
      exact hd k hk
  by_cases ht : t = .accept k
  · subst ht
    simp [Server.step, acceptStep, hdone] at h
  · rw [hpc.accept k ht, hdone]

end Server

theorem fresh {ok : Server → Thread × Input → Prop} {s : Server} (h : server.Reach ok s) : s.Fresh := by
  refine h.invariant Server.Fresh ?_ fun s ⟨t, x⟩ s' _ hf _ hst => hf.step hst
  rintro s ⟨n, rfl⟩
  constructor <;> simp [Server.start, RecvPc.dests, StopPc.sessions, Session.new]
  intro k r hr
  split at hr <;> simp [AcceptPc.session] at hr

theorem registered {ok : Server → Thread × Input → Prop} {s : Server} (h : server.Reach ok s) : s.Registered := by
  refine h.invariant Server.Registered ?_ fun s ⟨t, x⟩ s' hr hg _ hst => hg.step (fresh hr) hst
  rintro s ⟨n, rfl⟩
  have hnone : ∀ k, ((Server.start n).accept k).session = none := fun k => by
    simp only [Server.start]
    split <;> rfl
  exact ⟨by simp [Server.start], fun k r hr => by simp [hnone] at hr, fun k l r hr => by simp [hnone] at hr⟩

/-- A session whose threads have been created is past the first store of `ClientSession::Start`. -/
theorem not_starting {ok : Server → Thread × Input → Prop} {s : Server} (h : server.Reach ok s) {r : ℕ}
    (hr : s.Started r) (k : ℕ) : s.accept k ≠ .startActive r := by
  refine h.invariant (fun s => ∀ r, s.Started r → ∀ k, s.accept k ≠ .startActive r) ?_ ?_ r hr k
  · rintro s ⟨n, rfl⟩ r hr
    simp [Server.Started, Server.start, Session.new] at hr
  · rintro s ⟨t, x⟩ s' hreach ih - hst r hr k hk
    have hf := fresh hreach
    have hstart := Server.step_started hst hr
    by_cases ht : t = .accept k
    · subst ht
      obtain ⟨hcall, rfl⟩ := Server.acceptStep_startActive hst hk
      rcases hstart with h1 | ⟨l, hl, h1⟩
      · obtain ⟨h2, h3, h4⟩ := hf.blank s.count le_rfl
        simp [Server.Started, h2, h3, h4, Session.new] at h1
      · cases hl
        simp [hcall] at h1
    · rw [(Server.step_pc hst).accept k ht] at hk
      rcases hstart with h1 | ⟨l, rfl, h1⟩
      · exact ih r h1 k hk
      · refine ht (congrArg Thread.accept ((registered hreach).one l k r ?_ (by simp [hk, AcceptPc.session])))
        rcases h1 with h1 | h1 <;> simp [h1, AcceptPc.session]

/-- While `ChatServer::Stop` has the sessions in hand, no accept thread runs. -/
theorem acceptDone {ok : Server → Thread × Input → Prop} {s : Server} (h : server.Reach ok s) : s.AcceptDone := by
  refine h.invariant Server.AcceptDone ?_ fun s ⟨t, x⟩ s' _ hd _ hst => hd.step hst
  rintro s ⟨n, rfl⟩ k hk
  simp only [Server.start, StopPc.Joined, or_false] at hk ⊢
  exact if_neg (by omega)

/-! ## Two clients -/

/-- The accept thread `0` makes a session, on a connection that will deliver `stream`. -/
def connect (stream : List UInt8) : List (Thread × Input) :=
  (.accept 0, .go) :: (.accept 0, .accepted stream) :: List.replicate 6 (.accept 0, .go)

/-- The server after two clients have connected.  The `RecvLoop` of the first is about to call `recv`, the
`SendLoop` of the second waits for a message. -/
def twoClients (stream : List UInt8) : Server :=
  (server.run (.start 1) (connect stream ++ connect [] ++ List.replicate 4 (Thread.send 1, Input.go) ++
    List.replicate 2 (Thread.recv 0, Input.go))).getD (.start 1)

theorem run_twoClients (stream : List UInt8) : server.run (.start 1) (connect stream ++ connect [] ++
    List.replicate 4 (Thread.send 1, Input.go) ++ List.replicate 2 (Thread.recv 0, Input.go)) =
      some (twoClients stream) := rfl

theorem reachable_twoClients (stream : List UInt8) : server.Reachable (twoClients stream) :=
  System.reachable_of_run ⟨1, rfl⟩ (run_twoClients stream)

/-- The `RecvLoop` of the first of two clients broadcasts its message to the second. -/
def castToSecond : List (Thread × Input) :=
  List.replicate 11 (Thread.recv 0, Input.go) ++ [(Thread.recv 0, Input.wake 0), (Thread.recv 0, Input.go)]

end TcpChat.FramingServer
