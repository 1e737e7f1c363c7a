import TcpChat.FramingServer.Accounting

/-!
# Waiting for room in `SendMsg`

`SendMsg` waits until the queue has room for its message under `TX_HWM_BYTES`.  The queue makes room only when the
`SendLoop` takes a message out of it.

* `SelfBlocked` — a broadcaster waits for room in the queue of an active session, and the queue is empty;
* `selfBlocked_reachable` — a message that `recv_frame` accepts and that is larger than `TX_HWM_BYTES` blocks its
  broadcaster so;
* `not_selfBlocked` — nothing else does.
-/

namespace TcpChat.FramingServer

open TcpChat.Framing TcpChat.Lib

/-- The message that a `SendLoop` has taken out of its queue. -/
def SendPc.inHand : SendPc → Option Msg
  | .sub msg | .notify msg | .unlock msg | .frame msg _ => some msg
  | _ => none

/-- The call of `SendMsg` that a `RecvLoop` is in, between its first test of `m_active` and the end of its wait. -/
def RecvPc.waiting : RecvPc → Option Call
  | .sendLock c | .sendPred c | .sendPark c | .sendParked c => some c
  | _ => none

/-- The call of `SendMsg` that a `RecvLoop` is about to enter. -/
def RecvPc.entering : RecvPc → Option Call
  | .sendTest c => some c
  | _ => none

/-- The session that `ClientSession::Stop` is stopping, once it has cleared `m_active`. -/
def StopPc.stored : StopPc → Option ℕ
  | .lockTx i _ | .notifyEmpty i _ | .notifyFull i _ | .unlockTx i _ | .shutdown i _ | .frame i _ _ | .close i _
  | .joinRecv i _ | .joinSend i _ | .relockTx i _ | .clear i _ | .zero i _ | .reunlockTx i _ => some i
  | _ => none

namespace Server

/-- The `RecvLoop` of `i` waits in `SendMsg` for room in the empty queue of its recipient. -/
structure SelfBlocked (s : Server) (i : ℕ) (c : Call) : Prop where
  parked : s.recv i = .sendPark c ∨ s.recv i = .sendParked c
  full : ¬ (s.sess c.dest).HasRoom c.msg.length
  active : (s.sess c.dest).active = true
  queue : (s.sess c.dest).txQueue = []
  inHand : (s.send c.dest).inHand = none

/-- The step does not enter `SendMsg` of an active session with a message of more than `TX_HWM_BYTES` bytes. -/
def SmallSend (s : Server) : Thread × Input → Prop
  | (.recv i, _) => ∀ c ∈ (s.recv i).entering, (s.sess c.dest).active = true → c.msg.length ≤ txHwmBytes
  | _ => True

instance (s : Server) : DecidablePred s.SmallSend
  | (.recv i, _) => inferInstanceAs (Decidable (∀ c ∈ (s.recv i).entering, _ → _))
  | (.accept _, _) | (.send _, _) | (.stop, _) => isTrue trivial

variable {s s' : Server} {t : Thread} {x : Input}

theorem recvStep_waiting {i : ℕ} (h : s.recvStep i x = some s') {c : Call} (hc : c ∈ (s'.recv i).waiting) :
    c ∈ (s.recv i).waiting ∨ c ∈ (s.recv i).entering ∧ (s.sess c.dest).active = true := by
  unfold recvStep at h
  repeat' split at h
  all_goals simp only [Option.some.injEq, reduceCtorEq] at h
  all_goals subst h
  all_goals simp only [setRecv, modify, Function.update_self, RecvPc.waiting, RecvPc.entering, *] at hc ⊢
  all_goals grind -linarith [RecvPc.waiting]

theorem stopStep_stored (h : s.stopStep x = some s') {r : ℕ} (hr : r ∈ s'.stop.stored) :
    r ∈ s.stop.stored ∨ (s'.sess r).active = false := by
  unfold stopStep at h
  repeat' split at h
  all_goals simp only [Option.some.injEq, reduceCtorEq] at h
  all_goals subst h
  all_goals simp only [setStop, modify, Function.update_apply, StopPc.stored, *] at hr ⊢
  all_goals grind -linarith [StopPc.stored]

end Server

variable {s : Server}

/-- A session that `Stop` has told to stop stays inactive. -/
theorem stored_inactive {ok : Server → Thread × Input → Prop} (h : server.Reach ok s) {r : ℕ}
    (hr : r ∈ s.stop.stored) : (s.sess r).active = false := by
  refine h.invariant (fun s => ∀ r ∈ s.stop.stored, (s.sess r).active = false) ?_ ?_ r hr
  · rintro s ⟨n, rfl⟩ r hr
    simp [Server.start, StopPc.stored] at hr
  · rintro s ⟨t, x⟩ s' hreach ih - hst r hr
    have hpc := Server.step_pc hst
    have hkeep : r ∈ s.stop.stored → (s'.sess r).active = false := by
      intro hr
      by_contra ha
      rcases Server.step_active hst (by simpa using ha) with h1 | ⟨k, -, hk⟩
      · simp [ih r hr] at h1
      · have hjoined : s.stop.Joined k := by
          cases hp : s.stop <;> simp [hp, StopPc.stored] at hr <;> trivial
        simp [acceptDone hreach k (.inr hjoined)] at hk
    by_cases ht : t = .stop
    · subst ht
      rcases Server.stopStep_stored hst hr with h1 | h1
      · exact hkeep h1
      · exact h1
    · exact hkeep (hpc.stop ht ▸ hr)

/-- In a run without large messages no large message waits. -/
theorem waiting_small (h : server.Reach Server.SmallSend s) (i : ℕ) {c : Call} (hc : c ∈ (s.recv i).waiting) :
    c.msg.length ≤ txHwmBytes := by
  refine h.invariant (fun s => ∀ i, ∀ c ∈ (s.recv i).waiting, c.msg.length ≤ txHwmBytes) ?_ ?_ i c hc
  · rintro s ⟨n, rfl⟩ i c hc
    simp [Server.start, RecvPc.waiting] at hc
  · rintro s ⟨t, x⟩ s' - ih hok hst i c hc
    by_cases ht : t = .recv i
    · subst ht
      rcases Server.recvStep_waiting hst hc with h1 | ⟨h1, ha⟩
      · exact ih i c h1
      · exact hok c h1 ha
    · exact ih i c ((Server.step_pc hst).recv i ht ▸ hc)

/-- An active session whose queue is empty and whose `SendLoop` has no message in hand counts no bytes. -/
theorem no_bytes {ok : Server → Thread × Input → Prop} (h : server.Reach ok s) {r : ℕ}
    (ha : (s.sess r).active = true) (hq : (s.sess r).txQueue = []) (hh : (s.send r).inHand = none) :
    (s.sess r).txBytesQueued = 0 := by
  obtain ⟨t, ht⟩ : ∃ t, (s.sess r).txMutex = none ∨ (s.sess r).txMutex = some t := by
    cases hm : (s.sess r).txMutex with
    | none => exact ⟨.stop, .inl rfl⟩
    | some t => exact ⟨t, .inr rfl⟩
  have hb := balanced h r t ht
  have hstale : s.stale r t = 0 := by
    cases t with
    | send i =>
      by_cases hi : i = r
      · subst hi
        cases hp : s.send i <;> simp_all [Server.stale, SendPc.stale, SendPc.inHand]
      · simp [Server.stale, hi]
    | stop =>
      by_contra hne
      have hr : r ∈ s.stop.stored := by
        cases hp : s.stop <;> simp_all [Server.stale, StopPc.stale, StopPc.stored]
      simp [stored_inactive h hr] at ha
    | _ => rfl
  rw [Server.Accounts, hq, hstale] at hb
  simp at hb
  exact hb.1

/-- **Without large messages nobody waits for room in an empty queue.** -/
theorem not_selfBlocked (h : server.Reach Server.SmallSend s) (i : ℕ) (c : Call) : ¬ s.SelfBlocked i c := by
  rintro ⟨hp, hfull, ha, hq, hh⟩
  have hsmall : c.msg.length ≤ txHwmBytes :=
    waiting_small h i (by rcases hp with hp | hp <;> simp [hp, RecvPc.waiting])
  exact hfull (.inr (by rw [no_bytes h ha hq hh]; omega))

/-- The `RecvLoop` of the first of two clients receives one byte and gets into `SendMsg`. -/
def sendByte : List (Thread × Input) :=
  [(Thread.recv 0, Input.count 4), (Thread.recv 0, Input.count 1)] ++ List.replicate 6 (Thread.recv 0, Input.go)

theorem not_selfBlocked_sendByte :
    (server.run (twoClients (frame [104])) sendByte).map (fun s => s.recv 0) = some (.sendPred ⟨[104], 1, []⟩) ∧
      ∀ s ∈ server.run (twoClients (frame [104])) sendByte, ¬ s.SelfBlocked 0 ⟨[104], 1, []⟩ := by
  have hinit : server.Reach Server.SmallSend (.start 1) := .init ⟨1, rfl⟩
  have hstart := hinit.run_along (run_twoClients (frame [104])) (by decide +kernel)
  exact ⟨by decide +kernel, fun s hs => not_selfBlocked (hstart.run_along hs (by decide +kernel)) 0 _⟩

/-! ## A large message -/

/-- A `RecvLoop` receives a frame: the length field in one piece, the payload in another. -/
theorem run_recv_frame {s : Server} {i : ℕ} {p : List UInt8} (hp : s.recv i = .frame .start)
    (hv : (s.sess i).valid = true) (hu : (s.sess i).unread = frame p) (hpos : 0 < p.length)
    (hmax : p.length ≤ maxPayload) :
    server.run s [(.recv i, .count 4), (.recv i, .count p.length)] =
      some ((((s.modify i fun c => { c with unread := p }).setRecv i (.frame (.payload p.length []))).modify i fun c =>
        { c with unread := [], decoded := c.decoded ++ [p] }).setRecv i (.castLock p)) := by
  have htake : (frame p).take 4 = toBE 4 p.length := by
    rw [frame, List.take_append_of_le_length (by simp), List.take_of_length_le (by simp)]
  have hsize : ofBE (toBE 4 p.length) = p.length := ofBE_toBE_of_lt (by unfold maxPayload at hmax; omega)
  have hcall := Session.recvCall_count (w := 4) hv (by omega) le_rfl (by simp [hu])
  rw [hu, htake, frame, List.drop_left' (by simp)] at hcall
  have h₁ : s.recvStep i (.count 4) =
      some ((s.modify i fun c => { c with unread := p }).setRecv i (.frame (.payload p.length []))) :=
    Server.recvStep_frame_again hp hcall
      (by simp [FrameReader.turn, FrameReader.start, hsize, hmax, List.length_pos_iff.1 hpos])
  generalize hs₁ : (s.modify i fun c => { c with unread := p }).setRecv i (.frame (.payload p.length [])) = s₁ at h₁ ⊢
  have hp₁ : s₁.recv i = .frame (.payload p.length []) := by simp [← hs₁, Server.setRecv]
  have hu₁ : (s₁.sess i).unread = p := by simp [← hs₁, Server.setRecv, Server.modify]
  have hv₁ : (s₁.sess i).valid = true := by simp [← hs₁, Server.setRecv, Server.modify, hv]
  have hcall₁ := Session.recvCall_count (w := p.length) hv₁ hpos le_rfl (by rw [hu₁])
  rw [hu₁, List.take_length, List.drop_length] at hcall₁
  have h₂ := Server.recvStep_frame_ret hp₁ hcall₁ (by simp [FrameReader.turn]; rfl)
  simp only [System.run, server, Server.step, h₁, Option.bind_some, h₂]

/-- **A large message blocks its broadcaster.**  The first of two clients sends a frame of more than `TX_HWM_BYTES`
bytes. -/
theorem selfBlocked_of_large {p : List UInt8} (hp : txHwmBytes < p.length) (hmax : p.length ≤ maxPayload) :
    ∃ s, server.Reachable s ∧ s.SelfBlocked 0 ⟨p, 1, []⟩ := by
  have hrun := run_recv_frame (s := twoClients (frame p)) (i := 0) rfl rfl rfl (by omega) hmax
  generalize hs₂ : Server.setRecv _ 0 (.castLock p) = s₂ at hrun
  let s₃ := (server.run s₂ (List.replicate 6 (.recv 0, .go))).getD s₂
  let s₄ := s₃.setRecv 0 (.sendPark ⟨p, 1, []⟩)
  let s₅ := (s₄.recvStep 0 .go).getD s₄
  have hroom : ∀ c : Session, c.active = true → c.txBytesQueued = 0 → ¬ c.HasRoom p.length := fun c ha hb => by
    simp [Session.HasRoom, ha, hb, hp]
  have h₃ : server.run s₂ (List.replicate 6 (.recv 0, .go)) = some s₃ := by subst hs₂; rfl
  have h₄ : server.step s₃ (.recv 0, .go) = some s₄ := by
    subst hs₂
    exact congrArg (fun q => some (s₃.setRecv 0 q)) (if_neg (hroom _ rfl rfl))
  have h₅ : server.step s₄ (.recv 0, .go) = some s₅ := by subst hs₂; rfl
  have hreach := ((reachable_twoClients (frame p)).run_along hrun (System.along_true _ _)).run_along h₃
    (System.along_true _ _)
  refine ⟨s₅, (hreach.step trivial h₄).step trivial h₅, .inr ?_, hroom _ ?_ ?_, ?_, ?_, ?_⟩ <;> subst hs₂ <;> rfl

/-- One byte too many. -/
theorem selfBlocked_reachable : ¬ ∀ s, server.Reachable s → ∀ i c, ¬ s.SelfBlocked i c := fun h => by
  obtain ⟨s, hs, hb⟩ := selfBlocked_of_large (p := List.replicate (txHwmBytes + 1) 0)
    (by rw [List.length_replicate]; omega) (by rw [List.length_replicate]; decide)
  exact h s hs 0 _ hb

end TcpChat.FramingServer
