import TcpChat.FramingClient.Accounting

/-!
# No wake-up is lost while the client is active

`TxEnqueueMessage` notifies `m_txNotEmpty` only when the queue was empty, `SendMessages` notifies `m_txNotFull` only
when the counter has fallen to `TX_LWM`.

* `Waiting` — only the main thread parks on `m_txNotFull`, only the sender on `m_txNotEmpty`;
* `Woken` — whoever is parked, or about to park, and could go on is about to be notified;
* `no_lost_wakeup` — the same for the threads that are parked, in every reachable state.
-/

namespace TcpChat.FramingClient

open TcpChat.Framing TcpChat.Lib

namespace Tx

/-- Who is parked where. -/
structure Waiting (t : Tx) : Prop where
  notEmpty : t.txNotEmpty = [] ∨ t.txNotEmpty = [.send] ∧ t.send = .parked
  notFull : t.txNotFull = [] ∨ t.txNotFull = [.main] ∧ ∃ msg, t.enqueue = .parked msg

/-- The main thread is parked without having been notified, or stands before its park. -/
def MainWaits (t : Tx) (msg : List UInt8) : Prop :=
  t.enqueue = .park msg ∨ t.enqueue = .parked msg ∧ t.txNotFull ≠ []

/-- The sender is parked without having been notified, or stands before its park. -/
def SendWaits (t : Tx) : Prop := t.send = .park ∨ t.txNotEmpty ≠ []

/-- Whoever waits in an active client has to, or is about to be notified. -/
structure Woken (t : Tx) : Prop where
  main : ∀ msg, t.MainWaits msg → t.active = true → ¬ t.CanEnqueue msg.length ∨ ∃ m, t.send = .notify m
  send : t.SendWaits → t.active = true → ¬ t.CanSend ∨ ∃ m, t.enqueue = .notify m

variable {t t' : Tx} {x : Input} {i : TxMove}

theorem step_waiting (h : t.step i = some t') (hw : t.Waiting) : t'.Waiting := by
  obtain ⟨he, hf⟩ := hw
  cases i <;> simp only [step, enqueueStep, sendStep] at h
  all_goals repeat' split at h
  all_goals simp only [Option.some.injEq, reduceCtorEq] at h
  all_goals subst h
  all_goals refine ⟨?_, ?_⟩
  all_goals grind -linarith

/-- A notification comes before the waiter's park only if the waiter is outside the critical section. -/
theorem enqueueStep_woken (h : t.enqueueStep x = some t') (hex : t.enqueue.HoldsTx → ¬ t.send.HoldsTx)
    (hw : t.Woken) : t'.Woken := by
  have hpark : t.send = .park → ∀ msg, t.enqueue ≠ .notify msg := fun hp msg he => by
    simp [hp, he, EnqueuePc.HoldsTx, SendPc.HoldsTx] at hex
  obtain ⟨hm, hs⟩ := hw
  unfold enqueueStep at h
  repeat' split at h
  all_goals simp only [Option.some.injEq, reduceCtorEq] at h
  all_goals subst h
  all_goals refine ⟨?_, ?_⟩
  all_goals grind -linarith [MainWaits, SendWaits, CanEnqueue, CanSend, dropOldest]

theorem sendStep_woken (h : t.sendStep x = some t') (hex : t.enqueue.HoldsTx → ¬ t.send.HoldsTx)
    (hw : t.Woken) : t'.Woken := by
  have hpark : ∀ msg m, t.enqueue = .park msg → t.send ≠ .notify m := fun msg m hp he => by
    simp [hp, he, EnqueuePc.HoldsTx, SendPc.HoldsTx] at hex
  obtain ⟨hm, hs⟩ := hw
  unfold sendStep at h
  repeat' split at h
  all_goals simp only [Option.some.injEq, reduceCtorEq] at h
  all_goals subst h
  all_goals refine ⟨?_, ?_⟩
  all_goals grind -linarith [MainWaits, SendWaits, CanEnqueue, CanSend]

theorem step_woken (h : t.step i = some t') (hex : t.enqueue.HoldsTx → ¬ t.send.HoldsTx) (hw : t.Woken) :
    t'.Woken := by
  cases i with
  | enqueue x => exact enqueueStep_woken h hex hw
  | send x => exact sendStep_woken h hex hw
  | deactivate => exact Option.some.inj h ▸ ⟨fun _ _ => nofun, fun _ => nofun⟩
  | notifyNotEmpty =>
    obtain rfl := Option.some.inj h
    exact ⟨hw.main, fun hp => hw.send (.inl (by simpa [SendWaits] using hp))⟩
  | notifyNotFull =>
    obtain rfl := Option.some.inj h
    exact ⟨fun msg hp => hw.main msg (.inl (by simpa [MainWaits] using hp)), hw.send⟩
  | shutdown => exact Option.some.inj h ▸ ⟨hw.main, hw.send⟩

end Tx

/-! ## In every reachable state -/

variable {ok : Tx → TxMove → Prop} {t : Tx}

theorem waiting (h : txQueue.Reach ok t) : t.Waiting := by
  refine h.invariant Tx.Waiting ?_ fun t i t' _ hw _ hst => Tx.step_waiting hst hw
  rintro t ⟨mode, rfl⟩
  exact ⟨.inl rfl, .inl rfl⟩

/-- The two threads are never both inside the critical section. -/
theorem exclusive (h : txQueue.Reach ok t) (hm : t.enqueue.HoldsTx) : ¬ t.send.HoldsTx := by
  intro hs
  have hmain : t.HoldsTx .main := hm
  have hsend : t.HoldsTx .send := hs
  cases (tx_owned h).excl hmain hsend

theorem woken (h : txQueue.Reach ok t) : t.Woken := by
  refine h.invariant Tx.Woken ?_ fun t i t' hr hw _ hst => Tx.step_woken hst (exclusive hr) hw
  rintro t ⟨mode, rfl⟩
  exact ⟨fun msg hp => by simp [Tx.MainWaits, Tx.start] at hp, fun hp => by simp [Tx.SendWaits, Tx.start] at hp⟩

/-- **No lost wake-up.**  While the client is active, a thread that is parked without having been notified and could go
on stands in front of its notification by the other thread; for the main thread an empty queue is enough. -/
theorem no_lost_wakeup (h : txQueue.Reach Tx.Small t) (ha : t.active = true) :
    (∀ msg, t.enqueue = .parked msg → .main ∈ t.txNotFull → t.CanEnqueue msg.length ∨ t.txQueue = [] →
      ∃ m, t.send = .notify m) ∧
    (t.send = .parked → .send ∈ t.txNotEmpty → t.txQueue ≠ [] → ∃ m, t.enqueue = .notify m) := by
  have hw := woken h
  refine ⟨fun msg hp hmem hcan => ?_, fun hp hmem hq => ?_⟩
  · have hcan' : t.CanEnqueue msg.length := by
      rcases hcan with hcan | hq
      · exact hcan
      · -- nothing queued: the message fits, and the counter is below the low-water mark
        have hs := sound h
        have hsize := hs.small msg (by rw [hp]; rfl)
        have hb := hs.bytes
        rw [hq, queueBytes_nil] at hb
        exact .inr ⟨by omega, by unfold WouldOverflow; omega⟩
    exact (hw.main msg (.inr ⟨hp, List.ne_nil_of_mem hmem⟩) ha).resolve_left (not_not.2 hcan')
  · exact (hw.send (.inr (List.ne_nil_of_mem hmem)) ha).resolve_left (not_not.2 (.inr hq))

/-- The sender parks on the empty queue; the main thread queues a message and stands in front of its notification. -/
def parkThenPush : List TxMove :=
  List.replicate 3 (TxMove.send .go) ++ [TxMove.enqueue (.call [104])] ++ List.replicate 4 (TxMove.enqueue .go)

theorem no_lost_wakeup_parkThenPush :
    (txQueue.run (.start .blockProducer) parkThenPush).map (fun t => (t.active, t.send, t.txNotEmpty, t.txQueue)) =
        some (true, .parked, [.send], [[104]]) ∧
      ∀ t ∈ txQueue.run (.start .blockProducer) parkThenPush, ∃ m, t.enqueue = .notify m := by
  have hinit : txQueue.Reach Tx.Small (.start .blockProducer) := .init ⟨_, rfl⟩
  have hrun : (txQueue.run (.start .blockProducer) parkThenPush).map
      (fun t => (t.active, t.send, t.txNotEmpty, t.txQueue)) = some (true, .parked, [.send], [[104]]) := by decide +kernel
  refine ⟨hrun, fun t ht => ?_⟩
  rw [Option.mem_def.1 ht] at hrun
  simp only [Option.map_some, Option.some.injEq, Prod.mk.injEq] at hrun
  obtain ⟨ha, hp, hl, hq⟩ := hrun
  exact (no_lost_wakeup (hinit.run_along ht (by decide +kernel)) ha).2 hp (by simp [hl]) (by simp [hq])

end TcpChat.FramingClient
