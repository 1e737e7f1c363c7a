import TcpChat.IocpClient.Pipe

/-!
# The client is a send pipe

Only one of the threads, the kernel and the completion port has the right to submit, and `m_sendInFlight` says that one
of them does.  With this every step of the client is a step of the pipe or does nothing to it.

* `Rights` — who has the right, and `Phase.Right`, what this is in the pipe;
* `Refines` — the relation between the states, and `refines_step`, one step.
-/

namespace TcpChat.IocpClient

open TcpChat.Lib

/-! ## Rights -/

/-- `KickSend` has not submitted yet. -/
def KickPc.holds : KickPc → Bool
  | lock | test | send => true
  | unlock => false

/-- `SendWorker` is about to submit. -/
def WorkerPc.kicking : WorkerPc → Bool
  | release => true
  | kick p => p.holds
  | _ => false

/-- `OnSendComplete` is about to submit. -/
def NetPc.kicking : NetPc → Bool
  | completeUnlock needKick => needKick
  | kick p => p.holds
  | _ => false

/-- `OnSendComplete` has been called, with the number of bytes. -/
def NetPc.completing : NetPc → Option ℕ
  | completeLock bytes | complete bytes => some bytes
  | _ => none

/-- The send that the packet completes. -/
def Packet.sendDone : Packet → Option (SendItem × ℕ × Bool)
  | send it bytes ok => some (it, bytes, ok)
  | recv _ _ | quit => none

/-- All places at which the right to submit can be. -/
structure Rights where
  worker : Bool
  net : Bool
  completing : Option ℕ
  pending : List SendItem
  packets : List (SendItem × ℕ × Bool)

def Client.rights (s : Client) : Rights where
  worker := s.worker.kicking
  net := s.net.kicking
  completing := s.net.completing
  pending := s.pending
  packets := s.packets.filterMap Packet.sendDone

/-- The right is at one place at most, and `m_sendInFlight` is set if it is not free. -/
def Phase.Right (phase : Phase) (inFlight : Bool) (r : Rights) : Prop :=
  match phase with
  | .idle => inFlight = false ∧ r = ⟨false, false, none, [], []⟩
  | .kick => inFlight = true ∧ (r = ⟨true, false, none, [], []⟩ ∨ r = ⟨false, true, none, [], []⟩)
  | .out it => inFlight = true ∧ r = ⟨false, false, none, [it], []⟩
  | .complete it bytes ok =>
    inFlight = true ∧ (r = ⟨false, false, none, [], [(it, bytes, ok)]⟩ ∨
      ok = true ∧ r = ⟨false, false, some bytes, [], []⟩)
  | .lost => inFlight = true ∧ r = ⟨false, false, none, [], []⟩

/-- The network thread has not started `SendWorker` yet. -/
def NetPc.Early : NetPc → Prop
  | connect | associate | activate | firstRecv | runSend | spawn => True
  | _ => False

/-- The client is in a state of the pipe.  There is no socket any more if the queue has been cleared. -/
structure Refines (s : Client) (p : Pipe) : Prop where
  queue : p.queue = s.sendQueue
  sent : p.sent = s.sent
  log : p.log = s.log
  right : p.phase.Right s.sendInFlight s.rights
  closed : p.closed = true → s.socket = false ∧ ¬ s.net.Early
  absent : s.net.Early → s.worker = .absent

/-- The step is a `WSASend` that fails immediately. -/
def Client.Refuses (s : Client) (a : Action) : Prop :=
  a = .thread .worker .failed ∧ s.worker = .kick .send ∨ a = .thread .net .failed ∧ s.net = .kick .send

instance (s : Client) : DecidablePred s.Refuses := fun _ => inferInstanceAs (Decidable (_ ∨ _))

variable {s s' s₁ : Client} {p p' : Pipe} {t : Thread} {x : Input} {a : Action}

/-- The client's step is matched. -/
def Matched (s : Client) (a : Action) (s' : Client) (p : Pipe) : Prop :=
  Refines s' p ∨ ∃ e p', (e = .refuse → s.Refuses a) ∧ p.step e = some p' ∧ Refines s' p'

theorem Matched.of_step (e : Event) (p' : Pipe) (hst : p.step e = some p') (h : Refines s' p') (he : e ≠ .refuse) :
    Matched s a s' p :=
  .inr ⟨e, p', fun heq => absurd heq he, hst, h⟩

/-- Nothing happens to the queue and the right to submit. -/
theorem Refines.quiet (h : Refines s p) (hqueue : s'.sendQueue = s.sendQueue) (hsent : s'.sent = s.sent)
    (hlog : s'.log = s.log) (hflight : s'.sendInFlight = s.sendInFlight) (hrights : s'.rights = s.rights)
    (hsocket : s'.socket = true → s.socket = true ∨ s.net.Early)
    (hnet : s'.net.Early → s.net.Early ∧ s'.worker = s.worker) : Refines s' p := by
  refine ⟨by rw [hqueue, h.queue], by rw [hsent, h.sent], by rw [hlog, h.log], ?_, fun hclosed => ?_, fun hearly => ?_⟩
  · rw [hflight, hrights]
    exact h.right
  · obtain ⟨hsock, hne⟩ := h.closed hclosed
    refine ⟨?_, fun hearly => hne (hnet hearly).1⟩
    by_contra htrue
    rcases hsocket (by simpa using htrue) with hs | hs
    · simp [hsock] at hs
    · exact hne hs
  · obtain ⟨hold, hsame⟩ := hnet hearly
    rw [hsame]
    exact h.absent hold

/-! ## Where the right is -/

theorem Phase.Right.of_worker {phase : Phase} {inFlight : Bool} {r : Rights} (h : phase.Right inFlight r)
    (hr : r.worker = true) : phase = .kick ∧ r = ⟨true, false, none, [], []⟩ := by
  cases phase with
  | idle | out | lost => simp [h.2] at hr
  | kick => rcases h.2 with rfl | rfl <;> simp_all
  | complete => rcases h.2 with rfl | ⟨-, rfl⟩ <;> simp at hr

theorem Phase.Right.of_net {phase : Phase} {inFlight : Bool} {r : Rights} (h : phase.Right inFlight r)
    (hr : r.net = true) : phase = .kick ∧ r = ⟨false, true, none, [], []⟩ := by
  cases phase with
  | idle | out | lost => simp [h.2] at hr
  | kick => rcases h.2 with rfl | rfl <;> simp_all
  | complete => rcases h.2 with rfl | ⟨-, rfl⟩ <;> simp at hr

theorem Phase.Right.of_completing {phase : Phase} {inFlight : Bool} {r : Rights} (bytes : ℕ)
    (h : phase.Right inFlight r) (hr : r.completing = some bytes) :
    inFlight = true ∧ r = ⟨false, false, some bytes, [], []⟩ ∧ ∃ it, phase = .complete it bytes true := by
  cases phase with
  | idle | out | lost => simp [h.2] at hr
  | kick => rcases h.2 with rfl | rfl <;> simp at hr
  | complete it bytes' ok =>
    obtain ⟨hflight, rfl | ⟨rfl, rfl⟩⟩ := h
    · simp at hr
    · obtain rfl : bytes' = bytes := Option.some.inj hr
      exact ⟨hflight, rfl, it, rfl⟩

theorem Phase.Right.of_pending {phase : Phase} {inFlight : Bool} {r : Rights} {it : SendItem}
    (h : phase.Right inFlight r) (hr : it ∈ r.pending) :
    inFlight = true ∧ phase = .out it ∧ r = ⟨false, false, none, [it], []⟩ := by
  cases phase with
  | idle | lost => simp [h.2] at hr
  | out it' =>
    obtain ⟨hflight, rfl⟩ := h
    obtain rfl := List.mem_singleton.1 hr
    exact ⟨hflight, rfl, rfl⟩
  | kick => rcases h.2 with rfl | rfl <;> simp at hr
  | complete => rcases h.2 with rfl | ⟨-, rfl⟩ <;> simp at hr

theorem Phase.Right.of_packets {phase : Phase} {inFlight : Bool} {r : Rights} {it : SendItem} {bytes : ℕ} {ok : Bool}
    (h : phase.Right inFlight r) (hr : (it, bytes, ok) ∈ r.packets) :
    inFlight = true ∧ phase = .complete it bytes ok ∧ r = ⟨false, false, none, [], [(it, bytes, ok)]⟩ := by
  cases phase with
  | idle | out | lost => simp [h.2] at hr
  | kick => rcases h.2 with rfl | rfl <;> simp at hr
  | complete it' bytes' ok' =>
    obtain ⟨hflight, rfl | ⟨-, rfl⟩⟩ := h
    · obtain ⟨rfl, rfl, rfl⟩ : it = it' ∧ bytes = bytes' ∧ ok = ok' := by simpa using hr
      exact ⟨hflight, rfl, rfl⟩
    · simp at hr

/-- Nobody has the right if `m_sendInFlight` is not set. -/
theorem Phase.Right.of_free {phase : Phase} {r : Rights} (h : phase.Right false r) :
    phase = .idle ∧ r = ⟨false, false, none, [], []⟩ := by
  cases phase with
  | idle => exact ⟨rfl, h.2⟩
  | kick | out | complete | lost => exact absurd h.1 (by decide)

/-! ## `KickSend` -/

section KickSend

variable {w : WorkerPc} {n : NetPc}

/-- Nothing is submitted while somebody is about to submit. -/
theorem Refines.kicking (h : Refines s p) (hphase : p.phase = .kick) :
    s.sendInFlight = true ∧ s.net.completing = none ∧ s.pending = [] ∧ s.packets.filterMap Packet.sendDone = [] := by
  have hright := h.right
  rw [hphase] at hright
  obtain ⟨hflight, hr | hr⟩ := hright <;> simp only [Client.rights, Rights.mk.injEq] at hr <;> simp [hflight, hr]

/-- The right stays where it is. -/
theorem Refines.kick_goes (h : Refines s p) (m : Option Thread) (hw : w.kicking = s.worker.kicking)
    (hn : n.kicking = s.net.kicking) (hc : n.completing = s.net.completing) (hearly : ¬ n.Early) :
    Refines { s with mutex := m, worker := w, net := n } p := by
  refine ⟨h.queue, h.sent, h.log, ?_, fun hcl => ⟨(h.closed hcl).1, hearly⟩, fun he => absurd he hearly⟩
  have hrights : { s with mutex := m, worker := w, net := n }.rights = s.rights := by
    simp only [Client.rights, hw, hn, hc]
  rw [hrights]
  exact h.right

/-- `KickSend` gives the right up, and the queue is `queue`. -/
theorem Refines.kick_stops {queue : List SendItem} {closed : Bool} (h : Refines s p) (hphase : p.phase = .kick)
    (hw : w.kicking = false) (hn : n.kicking = false) (hc : n.completing = none) (hearly : ¬ n.Early)
    (hclosed : closed = true → s.socket = false) :
    Refines { s with sendInFlight := false, sendQueue := queue, worker := w, net := n }
      { p with queue := queue, phase := .idle, closed := closed } := by
  obtain ⟨-, -, hpending, hpackets⟩ := h.kicking hphase
  refine ⟨rfl, h.sent, h.log, ⟨rfl, ?_⟩, fun hcl => ⟨hclosed hcl, hearly⟩, fun he => absurd he hearly⟩
  simp only [Client.rights, hw, hn, hc, hpending, hpackets]

/-- `KickSend` submits the item. -/
theorem Refines.kick_submits {it : SendItem} (h : Refines s p) (hphase : p.phase = .kick) (hw : w.kicking = false)
    (hn : n.kicking = false) (hc : n.completing = none) (hearly : ¬ n.Early) :
    Refines { s with pending := s.pending ++ [it], worker := w, net := n } { p with phase := .out it } := by
  obtain ⟨hflight, -, hpending, hpackets⟩ := h.kicking hphase
  refine ⟨h.queue, h.sent, h.log, ⟨hflight, ?_⟩, fun hcl => ⟨(h.closed hcl).1, hearly⟩, fun he => absurd he hearly⟩
  simp only [Client.rights, hw, hn, hc, hpending, hpackets, List.nil_append]

/-- A step of `KickSend`, after which the threads are at `w` and `n`. -/
theorem Refines.kick {k k' : KickPc} {ok : Bool} (h : Refines s p) (hphase : p.phase = .kick)
    (hst : s.kickStep t ok k = some (s₁, some k')) (hw : w.kicking = (k'.holds && s.worker.kicking))
    (hn : n.kicking = (k'.holds && s.net.kicking)) (hc : n.completing = none) (hearly : ¬ n.Early)
    (hrefuse : k = .send → ok = false → s.Refuses a) : Matched s a { s₁ with worker := w, net := n } p := by
  obtain ⟨-, hnone, -, -⟩ := h.kicking hphase
  cases k with
  | lock =>
    simp only [Client.kickStep, Option.map_eq_some_iff, Client.lock_eq_some, Prod.mk.injEq, Option.some.injEq] at hst
    obtain ⟨_, ⟨-, rfl⟩, rfl, rfl⟩ := hst
    exact .inl (h.kick_goes (some t) hw hn (hc.trans hnone.symm) hearly)
  | test =>
    simp only [Client.kickStep] at hst
    split at hst
    next hempty =>
      cases hst
      refine .of_step .drained { p with phase := .idle } ?_ ?_ (by decide)
      · simp [Pipe.step, hphase, h.queue, hempty]
      · rw [← h.queue]
        exact h.kick_stops hphase hw hn hc hearly fun hcl => (h.closed hcl).1
    · split at hst
      next hsocket =>
        cases hst
        refine .of_step .clear { p with queue := [], phase := .idle, closed := true } ?_ ?_ (by decide)
        · simp [Pipe.step, hphase]
        · exact h.kick_stops hphase hw hn hc hearly fun _ => hsocket
      · cases hst
        exact .inl (h.kick_goes s.mutex hw hn (hc.trans hnone.symm) hearly)
  | send =>
    simp only [Client.kickStep] at hst
    split at hst
    · cases hst
    next it queue hq =>
      split at hst
      next hok =>
        split at hst
        next hsocket =>
          cases hst
          have hopen : p.closed ≠ true := fun hcl => by simp [(h.closed hcl).1] at hsocket
          refine .of_step .accept { p with phase := .out it } ?_ ?_ (by decide)
          · simp [Pipe.step, hphase, h.queue, hq, hopen]
          · exact h.kick_submits hphase hw hn hc hearly
        · cases hst
      next hok =>
        cases hst
        refine .inr ⟨.refuse, { p with queue := queue, phase := .idle }, fun _ => ?_, ?_, ?_⟩
        · exact hrefuse rfl (by simpa using hok)
        · simp [Pipe.step, hphase, h.queue, hq]
        · exact h.kick_stops hphase hw hn hc hearly fun hcl => (h.closed hcl).1
  | unlock => cases hst

end KickSend

theorem kickStep_none {k : KickPc} {ok : Bool} (h : s.kickStep t ok k = some (s₁, none)) :
    k = .unlock ∧ s₁ = s.unlock := by
  unfold Client.kickStep at h
  repeat' split at h
  all_goals simp_all

theorem kickStep_some {k q : KickPc} {ok : Bool} (h : s.kickStep t ok k = some (s₁, some q)) :
    k.holds = true ∧ s₁.net = s.net ∧ s₁.worker = s.worker := by
  cases k with
  | lock =>
    simp only [Client.kickStep, Option.map_eq_some_iff, Client.lock_eq_some] at h
    obtain ⟨_, ⟨-, rfl⟩, heq⟩ := h
    cases heq
    exact ⟨rfl, rfl, rfl⟩
  | test | send =>
    simp only [Client.kickStep] at h
    repeat' split at h
    all_goals cases h
    all_goals exact ⟨rfl, rfl, rfl⟩
  | unlock => cases h

/-- A step of the `KickSend` of `SendWorker`. -/
theorem Refines.worker_kick {k : KickPc} {ok : Bool} {k' : Option KickPc} (h : Refines s p) (hpc : s.worker = .kick k)
    (hst : s.kickStep .worker ok k = some (s₁, k')) (hrefuse : k = .send → ok = false → s.Refuses a) :
    Matched s a { s₁ with worker := k'.elim .loop .kick } p := by
  have hne : ¬ s.net.Early := fun hc => by simp [h.absent hc] at hpc
  cases k' with
  | none =>
    obtain ⟨rfl, rfl⟩ := kickStep_none hst
    refine .inl (h.quiet rfl rfl rfl rfl ?_ .inl fun hc => absurd hc hne)
    simp [Client.rights, Client.unlock, hpc, WorkerPc.kicking, KickPc.holds]
  | some q =>
    obtain ⟨hholds, hnet, -⟩ := kickStep_some hst
    have hkicking : s.worker.kicking = true := by rw [hpc]; exact hholds
    obtain ⟨hphase, hr⟩ := h.right.of_worker hkicking
    simp only [Client.rights, Rights.mk.injEq] at hr
    have hmatched := h.kick (w := .kick q) (n := s.net) hphase hst (by rw [hkicking, Bool.and_true]; rfl)
      (by rw [hr.2.1, Bool.and_false]) hr.2.2.1 hne hrefuse
    rwa [← hnet] at hmatched

/-- A step of the `KickSend` of the network thread. -/
theorem Refines.net_kick {k : KickPc} {ok : Bool} {k' : Option KickPc} (h : Refines s p) (hpc : s.net = .kick k)
    (hst : s.kickStep .net ok k = some (s₁, k')) (hrefuse : k = .send → ok = false → s.Refuses a) :
    Matched s a { s₁ with net := k'.elim .loop .kick } p := by
  cases k' with
  | none =>
    obtain ⟨rfl, rfl⟩ := kickStep_none hst
    refine .inl (h.quiet rfl rfl rfl rfl ?_ .inl fun hc => hc.elim)
    simp [Client.rights, Client.unlock, hpc, NetPc.kicking, NetPc.completing, KickPc.holds]
  | some q =>
    obtain ⟨hholds, -, hworker⟩ := kickStep_some hst
    have hkicking : s.net.kicking = true := by rw [hpc]; exact hholds
    obtain ⟨hphase, hr⟩ := h.right.of_net hkicking
    simp only [Client.rights, Rights.mk.injEq] at hr
    have hmatched := h.kick (w := s.worker) (n := .kick q) hphase hst (by rw [hr.1, Bool.and_false])
      (by rw [hkicking, Bool.and_true]; rfl) rfl id hrefuse
    rwa [← hworker] at hmatched

/-! ## One step -/

theorem stopStep_quiet {q : StopPc} {q' : Option StopPc} (h : s.stopStep q = some (s₁, q')) :
    ∃ socket isActive runSend, (socket = true → s.socket = true) ∧
      s₁ = { s with socket := socket, isActive := isActive, runSend := runSend } := by
  unfold Client.stopStep at h
  repeat' split at h
  all_goals simp only [Option.some.injEq, Prod.mk.injEq, reduceCtorEq] at h
  · exact ⟨s.socket, s.isActive, false, id, h.1.symm⟩
  · exact ⟨false, s.isActive, s.runSend, by simp, h.1.symm⟩
  · exact ⟨s.socket, false, s.runSend, id, h.1.symm⟩
  · exact ⟨s.socket, s.isActive, s.runSend, id, h.1.symm⟩

theorem Refines.input_step (h : Refines s p) (hst : s.inputStep x = some s') : Matched s a s' p := by
  have hmoves : ∀ {s' : Client}, s'.sendQueue = s.sendQueue → s'.sent = s.sent → s'.log = s.log →
      s'.sendInFlight = s.sendInFlight → s'.rights = s.rights → (s'.socket = true → s.socket = true) →
      s'.net = s.net → s'.worker = s.worker → Matched s a s' p :=
    fun h₁ h₂ h₃ h₄ h₅ h₆ h₇ h₈ => .inl (h.quiet h₁ h₂ h₃ h₄ h₅ (fun hs => .inl (h₆ hs)) fun hc => ⟨h₇ ▸ hc, h₈⟩)
  cases hpc : s.input with
  | getline | sendUnlock =>
    cases x <;> simp only [Client.inputStep, hpc, Option.some.injEq, reduceCtorEq] at hst
    all_goals subst hst
    all_goals exact hmoves rfl rfl rfl rfl rfl id rfl rfl
  | sendLock msg =>
    cases x <;> simp only [Client.inputStep, hpc, Option.map_eq_some_iff, Client.lock_eq_some, reduceCtorEq] at hst
    obtain ⟨_, ⟨-, rfl⟩, rfl⟩ := hst
    exact hmoves rfl rfl rfl rfl rfl id rfl rfl
  | sendPush msg =>
    cases x <;> simp only [Client.inputStep, hpc, Option.some.injEq, reduceCtorEq] at hst
    subst hst
    refine .of_step (.push msg) _ rfl ?_ (by simp)
    exact ⟨by rw [h.queue, h.sent], by rw [h.sent], h.log, h.right, h.closed, h.absent⟩
  | stop q =>
    cases x <;> simp only [Client.inputStep, hpc, Option.map_eq_some_iff, reduceCtorEq] at hst
    obtain ⟨⟨s₁, q'⟩, hstop, rfl⟩ := hst
    obtain ⟨socket, isActive, runSend, hsocket, rfl⟩ := stopStep_quiet hstop
    exact hmoves rfl rfl rfl rfl rfl hsocket rfl rfl
  | join =>
    cases x <;> simp only [Client.inputStep, hpc, Option.ite_none_right_eq_some, Option.some.injEq, reduceCtorEq] at hst
    obtain ⟨-, rfl⟩ := hst
    exact hmoves rfl rfl rfl rfl rfl id rfl rfl
  | done => cases x <;> simp only [Client.inputStep, hpc, reduceCtorEq] at hst

/-- `SendWorker` sets `m_sendInFlight`. -/
theorem Refines.take (h : Refines s p) (hpc : s.worker = .check) (hfree : s.sendInFlight = false) :
    Matched s a { s with sendInFlight := true, worker := .release } p := by
  have hright := h.right
  rw [hfree] at hright
  obtain ⟨hphase, hr⟩ := hright.of_free
  simp only [Client.rights, Rights.mk.injEq] at hr
  have hne : ¬ s.net.Early := fun hc => by simp [h.absent hc] at hpc
  refine .of_step .take { p with phase := .kick } (by simp [Pipe.step, hphase]) ?_ (by decide)
  exact ⟨h.queue, h.sent, h.log, ⟨rfl, .inl (by simp [Client.rights, WorkerPc.kicking, hr])⟩, h.closed,
    fun hc => absurd hc hne⟩

theorem Refines.worker_step (h : Refines s p) (hst : s.workerStep x = some s') :
    Matched s (.thread .worker x) s' p := by
  have hmoves : ∀ {s' : Client}, s.worker ≠ .absent → s'.sendQueue = s.sendQueue → s'.sent = s.sent →
      s'.log = s.log → s'.sendInFlight = s.sendInFlight → s'.rights = s.rights → s'.socket = s.socket →
      s'.net = s.net → Matched s (.thread .worker x) s' p := by
    intro s' hw h₁ h₂ h₃ h₄ h₅ h₆ h₇
    refine .inl (h.quiet h₁ h₂ h₃ h₄ h₅ (fun hs => .inl (h₆ ▸ hs)) fun hc => ?_)
    exact absurd (h.absent (h₇ ▸ hc)) hw
  cases hpc : s.worker with
  | absent | done => cases x <;> simp only [Client.workerStep, hpc, reduceCtorEq] at hst
  | loop =>
    cases x <;> simp only [Client.workerStep, hpc, Option.some.injEq, reduceCtorEq] at hst
    subst hst
    refine hmoves (by simp [hpc]) rfl rfl rfl rfl ?_ rfl rfl
    simp only [Client.rights, hpc]
    split <;> rfl
  | lock =>
    cases x <;> simp only [Client.workerStep, hpc, Option.map_eq_some_iff, Client.lock_eq_some, reduceCtorEq] at hst
    obtain ⟨_, ⟨-, rfl⟩, rfl⟩ := hst
    exact hmoves (by simp [hpc]) rfl rfl rfl rfl (by simp only [Client.rights, hpc]; rfl) rfl rfl
  | pred =>
    cases x <;> simp only [Client.workerStep, hpc, reduceCtorEq] at hst
    split at hst
    all_goals cases hst
    all_goals exact hmoves (by simp [hpc]) rfl rfl rfl rfl (by simp only [Client.rights, hpc]; rfl) rfl rfl
  | check =>
    cases x <;> simp only [Client.workerStep, hpc, reduceCtorEq] at hst
    split at hst
    · cases hst
      exact hmoves (by simp [hpc]) rfl rfl rfl rfl (by simp only [Client.rights, hpc]; rfl) rfl rfl
    · split at hst
      next hfree =>
        cases hst
        exact h.take hpc hfree.1
      next =>
        cases hst
        exact hmoves (by simp [hpc]) rfl rfl rfl rfl (by simp only [Client.rights, hpc]; rfl) rfl rfl
  | kick k =>
    cases k with
    | send =>
      cases x <;> simp only [Client.workerStep, hpc, Option.map_eq_some_iff, reduceCtorEq] at hst
      all_goals obtain ⟨⟨s₁, k'⟩, hkick, rfl⟩ := hst
      · exact h.worker_kick hpc hkick (by simp)
      · exact h.worker_kick hpc hkick fun _ _ => .inl ⟨rfl, hpc⟩
    | lock | test | unlock =>
      cases x <;> simp only [Client.workerStep, hpc, Option.map_eq_some_iff, reduceCtorEq] at hst
      obtain ⟨⟨s₁, k'⟩, hkick, rfl⟩ := hst
      exact h.worker_kick hpc hkick (by simp)
  | sleep | release | unlock | leave =>
    cases x <;> simp only [Client.workerStep, hpc, Option.some.injEq, reduceCtorEq] at hst
    subst hst
    exact hmoves (by simp [hpc]) rfl rfl rfl rfl (by simp only [Client.rights, hpc]; rfl) rfl rfl

/-- `OnSendComplete` under the mutex. -/
theorem Refines.complete {bytes : ℕ} (h : Refines s p) (hp : Sound p) (hpc : s.net = .complete bytes) :
    Matched s a { (s.onSendComplete bytes).1 with net := .completeUnlock (s.onSendComplete bytes).2 } p := by
  obtain ⟨hflight, hr, it, hphase⟩ := h.right.of_completing bytes (by simp [Client.rights, hpc, NetPc.completing])
  simp only [Client.rights, Rights.mk.injEq] at hr
  obtain ⟨hworker, -, -, hpending, hpackets⟩ := hr
  have hclosed : ∀ {b}, p.closed = true → s.socket = false ∧ ¬ (NetPc.completeUnlock b).Early :=
    fun hcl => ⟨(h.closed hcl).1, id⟩
  obtain ⟨queue, hq⟩ := List.head?_eq_some_iff.1 (hp.front it (by rw [hphase]; rfl))
  have hqueue : s.sendQueue = it :: queue := h.queue ▸ hq
  simp only [Client.onSendComplete, hqueue]
  split
  next hlt =>
    refine .of_step .advance
      { p with queue := { it with off := it.off + bytes } :: queue, phase := .kick } ?_ ?_ (by decide)
    · simp [Pipe.step, hphase, hq, hlt]
    · refine ⟨rfl, h.sent, h.log, ⟨hflight, .inr ?_⟩, hclosed, False.elim⟩
      simp [Client.rights, NetPc.kicking, NetPc.completing, hworker, hpending, hpackets]
  next hge =>
    refine .of_step .advance
      { p with queue := queue, phase := if queue = [] then .idle else .kick } ?_ ?_ (by decide)
    · simp [Pipe.step, hphase, hq, hge]
    · split
      next hempty =>
        refine ⟨hempty, h.sent, h.log, ⟨rfl, ?_⟩, hclosed, False.elim⟩
        simp [Client.rights, NetPc.kicking, NetPc.completing, hworker, hpending, hpackets]
      next =>
        refine ⟨rfl, h.sent, h.log, ⟨hflight, .inr ?_⟩, hclosed, False.elim⟩
        simp [Client.rights, NetPc.kicking, NetPc.completing, hworker, hpending, hpackets]

/-- The packet of a send is taken. -/
theorem Refines.take_send {it : SendItem} {bytes : ℕ} {ok : Bool} {packets : List Packet} (h : Refines s p)
    (hpackets : s.packets = .send it bytes ok :: packets) :
    Matched s a { s with packets := packets, net := if ok = false then .closeSocket else .completeLock bytes } p := by
  have hmem : (it, bytes, ok) ∈ s.rights.packets := by
    simp only [Client.rights, hpackets, List.filterMap_cons, Packet.sendDone]
    exact List.mem_cons_self
  obtain ⟨hflight, hphase, hr⟩ := h.right.of_packets hmem
  simp only [Client.rights, hpackets, List.filterMap_cons, Packet.sendDone, Rights.mk.injEq, List.cons.injEq,
    true_and] at hr
  obtain ⟨hworker, -, -, hpending, hrest⟩ := hr
  cases ok with
  | false =>
    refine .of_step .lose { p with phase := .lost } (by simp [Pipe.step, hphase]) ?_ (by decide)
    refine ⟨h.queue, h.sent, h.log, ⟨hflight, ?_⟩, fun hcl => ⟨(h.closed hcl).1, id⟩, False.elim⟩
    simp [Client.rights, NetPc.kicking, NetPc.completing, hworker, hpending, hrest]
  | true =>
    refine .inl ⟨h.queue, h.sent, h.log, ?_, fun hcl => ⟨(h.closed hcl).1, id⟩, False.elim⟩
    rw [hphase]
    refine ⟨hflight, .inr ⟨rfl, ?_⟩⟩
    simp [Client.rights, NetPc.kicking, NetPc.completing, hworker, hpending, hrest]

/-- Another packet is taken. -/
theorem Refines.take_other {packet : Packet} {packets : List Packet} {n : NetPc} (h : Refines s p) (hpc : s.net = .wait)
    (hpackets : s.packets = packet :: packets) (hother : packet.sendDone = none) (hn : ¬ n.Early)
    (hkicking : n.kicking = false) (hcompleting : n.completing = none) :
    Matched s a { s with packets := packets, net := n } p := by
  refine .inl (h.quiet rfl rfl rfl rfl ?_ .inl fun hc => absurd hc hn)
  simp only [Client.rights, hpackets, hpc, hkicking, hcompleting, List.filterMap_cons, hother]
  rfl

/-- A packet is taken from the completion port. -/
theorem Refines.take_packet (h : Refines s p) (hpc : s.net = .wait) (hst : s.netStep .go = some s') :
    Matched s a s' p := by
  simp only [Client.netStep, hpc] at hst
  split at hst
  all_goals simp only [Option.some.injEq, reduceCtorEq] at hst
  all_goals subst hst
  · exact h.take_other hpc ‹_› rfl id rfl rfl
  · split
    · exact h.take_other hpc ‹_› rfl id rfl rfl
    · exact h.take_other hpc ‹_› rfl id rfl rfl
  · exact h.take_send ‹_›

theorem Refines.net_step (h : Refines s p) (hp : Sound p) (hst : s.netStep x = some s') :
    Matched s (.thread .net x) s' p := by
  have hmoves : ∀ {s' : Client}, (s'.net.Early → s.net.Early ∧ s'.worker = s.worker) → s'.sendQueue = s.sendQueue →
      s'.sent = s.sent → s'.log = s.log → s'.sendInFlight = s.sendInFlight → s'.rights = s.rights →
      (s'.socket = true → s.socket = true ∨ s.net.Early) → Matched s (.thread .net x) s' p :=
    fun hn h₁ h₂ h₃ h₄ h₅ h₆ => .inl (h.quiet h₁ h₂ h₃ h₄ h₅ h₆ hn)
  cases hpc : s.net with
  | connect | associate | firstRecv =>
    cases x <;> simp only [Client.netStep, hpc, Option.some.injEq, reduceCtorEq] at hst
    all_goals subst hst
    all_goals have hearly : s.net.Early := by rw [hpc]; trivial
    all_goals refine hmoves (fun _ => ⟨hearly, rfl⟩) rfl rfl rfl rfl ?_ fun _ => .inr hearly
    all_goals simp only [Client.rights, hpc]; rfl
  | activate | runSend =>
    cases x <;> simp only [Client.netStep, hpc, Option.some.injEq, reduceCtorEq] at hst
    subst hst
    exact hmoves (fun _ => ⟨by rw [hpc]; trivial, rfl⟩) rfl rfl rfl rfl (by simp only [Client.rights, hpc]; rfl) .inl
  | spawn =>
    cases x <;> simp only [Client.netStep, hpc, Option.some.injEq, reduceCtorEq] at hst
    subst hst
    have hworker : s.worker = .absent := h.absent (by rw [hpc]; trivial)
    exact hmoves False.elim rfl rfl rfl rfl (by simp only [Client.rights, hpc, hworker]; rfl) .inl
  | loop =>
    cases x <;> simp only [Client.netStep, hpc, Option.some.injEq, reduceCtorEq] at hst
    subst hst
    cases hact : s.isActive
    all_goals exact hmoves False.elim rfl rfl rfl rfl (by simp only [Client.rights, hpc]; rfl) .inl
  | wait =>
    cases x with
    | go => exact h.take_packet hpc hst
    | failed =>
      simp only [Client.netStep, hpc, Option.some.injEq] at hst
      subst hst
      exact hmoves False.elim rfl rfl rfl rfl (by simp only [Client.rights, hpc]; rfl) .inl
    | _ => simp only [Client.netStep, hpc, reduceCtorEq] at hst
  | repost =>
    cases x <;> simp only [Client.netStep, hpc, Option.some.injEq, reduceCtorEq] at hst
    all_goals subst hst
    all_goals exact hmoves False.elim rfl rfl rfl rfl (by simp only [Client.rights, hpc]; rfl) .inl
  | closeSocket =>
    cases x <;> simp only [Client.netStep, hpc, Option.some.injEq, reduceCtorEq] at hst
    subst hst
    exact hmoves False.elim rfl rfl rfl rfl (by simp only [Client.rights, hpc]; rfl) (by simp)
  | postQuit =>
    cases x <;> simp only [Client.netStep, hpc, Option.some.injEq, reduceCtorEq] at hst
    subst hst
    refine hmoves False.elim rfl rfl rfl rfl ?_ .inl
    simp [Client.rights, NetPc.kicking, NetPc.completing, Packet.sendDone, hpc]
  | completeLock bytes =>
    cases x <;> simp only [Client.netStep, hpc, Option.map_eq_some_iff, Client.lock_eq_some, reduceCtorEq] at hst
    obtain ⟨_, ⟨-, rfl⟩, rfl⟩ := hst
    exact hmoves False.elim rfl rfl rfl rfl (by simp only [Client.rights, hpc]; rfl) .inl
  | complete bytes =>
    cases x <;> simp only [Client.netStep, hpc, Option.some.injEq, reduceCtorEq] at hst
    subst hst
    exact h.complete hp hpc
  | completeUnlock needKick =>
    cases x <;> simp only [Client.netStep, hpc, Option.some.injEq, reduceCtorEq] at hst
    subst hst
    cases needKick
    all_goals exact hmoves False.elim rfl rfl rfl rfl (by simp only [Client.rights, hpc]; rfl) .inl
  | kick k =>
    cases k with
    | send =>
      cases x <;> simp only [Client.netStep, hpc, Option.map_eq_some_iff, reduceCtorEq] at hst
      all_goals obtain ⟨⟨s₁, k'⟩, hkick, rfl⟩ := hst
      · exact h.net_kick hpc hkick (by simp)
      · exact h.net_kick hpc hkick fun _ _ => .inr ⟨rfl, hpc⟩
    | lock | test | unlock =>
      cases x <;> simp only [Client.netStep, hpc, Option.map_eq_some_iff, reduceCtorEq] at hst
      obtain ⟨⟨s₁, k'⟩, hkick, rfl⟩ := hst
      exact h.net_kick hpc hkick (by simp)
  | stop q =>
    cases x <;> simp only [Client.netStep, hpc, Option.map_eq_some_iff, reduceCtorEq] at hst
    obtain ⟨⟨s₁, q'⟩, hstop, rfl⟩ := hst
    obtain ⟨socket, isActive, runSend, hsocket, rfl⟩ := stopStep_quiet hstop
    cases q'
    all_goals refine hmoves False.elim rfl rfl rfl rfl ?_ fun hs => .inl (hsocket hs)
    all_goals simp only [Client.rights, hpc]; rfl
  | done => cases x <;> simp only [Client.netStep, hpc, reduceCtorEq] at hst

theorem Refines.send_done {k bytes : ℕ} {ok : Bool} (h : Refines s p)
    (hst : s.step (.sendDone k bytes ok) = some s') : Matched s (.sendDone k bytes ok) s' p := by
  simp only [Client.step] at hst
  split at hst
  · cases hst
  next it hit =>
    split at hst
    next hle =>
      cases hst
      obtain ⟨hk, hget⟩ := List.getElem?_eq_some_iff.1 hit
      have hmem : it ∈ s.rights.pending := hget ▸ List.getElem_mem hk
      obtain ⟨hflight, hphase, hr⟩ := h.right.of_pending hmem
      simp only [Client.rights, Rights.mk.injEq] at hr
      obtain ⟨hworker, hnet, hcompleting, hpending, hpackets⟩ := hr
      have hzero : k = 0 := by
        rw [hpending] at hk
        simpa using hk
      refine .of_step (.complete bytes ok)
        { p with phase := .complete it bytes ok, log := p.log ++ [(it.num, it.buffer.take bytes)] } ?_ ?_ (by simp)
      · simp [Pipe.step, hphase, hle]
      · refine ⟨h.queue, h.sent, by rw [h.log], ⟨hflight, .inl ?_⟩, h.closed, h.absent⟩
        simp [Client.rights, hworker, hnet, hcompleting, hpending, hpackets, hzero, Packet.sendDone]
    · cases hst

/-- **Every step of the client is a step of the pipe or does nothing to it.** -/
theorem refines_step (h : Refines s p) (hp : Sound p) (hst : s.step a = some s') : Matched s a s' p := by
  cases a with
  | thread t x =>
    cases t with
    | input => exact h.input_step hst
    | net => exact h.net_step hp hst
    | worker => exact h.worker_step hst
  | recvDone bytes ok =>
    simp only [Client.step, Option.ite_none_right_eq_some, Option.some.injEq] at hst
    obtain ⟨-, rfl⟩ := hst
    refine .inl (h.quiet rfl rfl rfl rfl ?_ .inl fun hc => ⟨hc, rfl⟩)
    simp [Client.rights, Packet.sendDone]
  | sendDone k bytes ok => exact h.send_done hst

/-- A run of the client is a run of the pipe, with the same sends that fail. -/
theorem refines_of_reach {ok : Client → Action → Prop} (okPipe : Pipe → Event → Prop)
    (hok : ∀ s a p e, Refines s p → ok s a → (e = .refuse → s.Refuses a) → okPipe p e) (h : client.Reach ok s) :
    ∃ p, pipe.Reach okPipe p ∧ Refines s p ∧ Sound p := by
  refine h.simulate (fun s p => Refines s p ∧ Sound p) ?_ ?_
  · rintro s rfl
    refine ⟨⟨[], .idle, false, [], []⟩, rfl, ⟨rfl, rfl, rfl, ⟨rfl, rfl⟩, by simp, fun _ => rfl⟩, ?_⟩
    exact ⟨List.Pairwise.nil, by simp, by simp, by simp [Phase.item], by simp⟩
  · rintro s a s' p ⟨hR, hp⟩ hs hst
    rcases refines_step hR hp hst with hR' | ⟨e, p', he, hstp, hR'⟩
    · exact .inl ⟨hR', hp⟩
    · exact .inr ⟨e, p', hok s a p e hR hs he, hstp, hR', hp.step hstp⟩

end TcpChat.IocpClient
