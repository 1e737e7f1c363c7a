import TcpChat.FramingClient.TxQueue

/-!
# What the transmit queue of the client holds

* `Sound` — `m_txBytesQueued` is the sum of the queued sizes, and with what the main thread is about to add at most
  `TX_HWM`;
* `Ordered` — the messages handed to `send_frame`, the one in hand and the queue are messages that
  `TxEnqueueMessage` accepted, in that order; none is missing but in the mode `DropOldest`;
* `txQueue_spec` — both in every state, for messages of at most `TX_HWM` bytes.
-/

namespace TcpChat.FramingClient

open TcpChat.Framing TcpChat.Lib

/-- The message of the call in progress. -/
def EnqueuePc.msg? : EnqueuePc → Option (List UInt8)
  | .returned _ => none
  | .lock msg | .pred msg | .park msg | .parked msg | .retest msg | .overflow msg | .store msg | .storeNotify msg
  | .push msg | .notify msg | .unlock msg _ => some msg

/-- Bytes that the main thread is about to add. -/
def EnqueuePc.due (active : Bool) : EnqueuePc → ℕ
  | .retest msg => if active then msg.length else 0
  | .push msg => msg.length
  | _ => 0

/-- A message that is in the queue and whose `TxEnqueueMessage` has not returned. -/
def EnqueuePc.owed : EnqueuePc → List (List UInt8)
  | .notify msg => [msg]
  | .unlock msg ok => if ok then [msg] else []
  | _ => []

/-- The message that `SendMessages` has taken from the queue and not handed to `send_frame`. -/
def SendPc.inHand : SendPc → List (List UInt8)
  | .notify msg | .unlock msg => [msg]
  | _ => []

namespace Tx

/-- `TxEnqueueMessage` is called with messages of at most `TX_HWM` bytes. -/
def Small (_ : Tx) : TxMove → Prop
  | .enqueue (.call msg) => msg.length ≤ txHwm
  | _ => True

instance (t : Tx) : DecidablePred t.Small
  | .enqueue (.call _) => inferInstanceAs (Decidable (_ ≤ _))
  | .enqueue .go | .enqueue (.line _) | .enqueue .eof | .enqueue (.count _) | .enqueue .closed | .enqueue (.error _)
  | .send _ | .deactivate | .notifyNotEmpty | .notifyNotFull | .shutdown => isTrue trivial

/-- The byte counter. -/
structure Sound (t : Tx) : Prop where
  bytes : t.txBytesQueued = queueBytes t.txQueue
  bound : t.txBytesQueued + t.enqueue.due t.active ≤ txHwm
  small : ∀ msg ∈ t.enqueue.msg?, msg.length ≤ txHwm
  mode : t.txMode = .blockProducer → ∀ msg, t.enqueue ≠ .overflow msg

/-- The messages on their way to the socket: handed to `send_frame`, in hand, and queued. -/
def underway (t : Tx) : List (List UInt8) := t.handed ++ t.send.inHand ++ t.txQueue

/-- The messages that `TxEnqueueMessage` has put into the queue. -/
def admitted (t : Tx) : List (List UInt8) := t.accepted ++ t.enqueue.owed

/-- The order of the messages. -/
structure Ordered (t : Tx) : Prop where
  sublist : t.underway.Sublist t.admitted
  exact : t.txMode ≠ .dropOldest → t.underway = t.admitted

variable {t t' : Tx} {x : Input} {i : TxMove}

/-! ## The counter -/

theorem due_of_canEnqueue {size : ℕ} (h : t.CanEnqueue size) (hb : t.txBytesQueued ≤ txHwm) :
    t.txBytesQueued + (if t.active = true then size else 0) ≤ txHwm := by
  rcases h with h | ⟨-, h⟩
  · simpa [h] using hb
  · have := Nat.le_of_not_lt h
    split <;> omega

theorem Sound.le (hs : t.Sound) : t.txBytesQueued ≤ txHwm := (Nat.le_add_right _ _).trans hs.bound

/-- What leaves the main thread alone and adds nothing to the queue keeps the counter sound. -/
theorem Sound.shrink (hs : t.Sound) (hb : t'.txBytesQueued = queueBytes t'.txQueue)
    (hle : t'.txBytesQueued ≤ t.txBytesQueued) (hm : t'.txMode = t.txMode) (he : t'.enqueue = t.enqueue)
    (ha : t'.active = true → t.active = true) : t'.Sound := by
  have hd : t'.enqueue.due t'.active ≤ t.enqueue.due t.active := by
    rw [he]
    cases t.enqueue <;> simp only [EnqueuePc.due, le_refl]
    split
    · simp [ha ‹_›]
    · exact Nat.zero_le _
  exact ⟨hb, (Nat.add_le_add hle hd).trans hs.bound, he ▸ hs.small, hm ▸ he ▸ hs.mode⟩

/-- The subtraction of `SendMessages` does not wrap. -/
theorem Sound.head (hs : t.Sound) {msg : List UInt8} {queue : List (List UInt8)} (hq : t.txQueue = msg :: queue) :
    msg.length ≤ t.txBytesQueued ∧ sizeSub t.txBytesQueued msg.length = queueBytes queue := by
  have hb := hs.bytes
  rw [hq, queueBytes_cons] at hb
  exact ⟨by omega, by rw [sizeSub_of_le (by omega)]; omega⟩

theorem enqueueStep_sound (h : t.enqueueStep x = some t') (hs : t.Sound) (hok : t.Small (.enqueue x)) : t'.Sound := by
  obtain ⟨hb, hd, hm, hmode⟩ := hs
  unfold enqueueStep at h
  repeat' split at h
  all_goals simp only [Option.some.injEq, reduceCtorEq] at h
  all_goals subst h
  all_goals refine ⟨?_, ?_, ?_, ?_⟩
  all_goals simp_all [EnqueuePc.msg?, EnqueuePc.due, Small]
  all_goals first
    | exact hb ▸ due_of_canEnqueue ‹_› (hb ▸ hd)
    | exact (dropOldest_bytes hm _).1
    | exact (dropOldest_bytes hm _).2
    | exact Nat.le_of_not_lt ‹_›

theorem sendStep_sound (h : t.sendStep x = some t') (hs : t.Sound) : t'.Sound := by
  unfold sendStep at h
  repeat' split at h
  all_goals simp only [Option.some.injEq, reduceCtorEq] at h
  all_goals subst h
  all_goals first
    | exact hs.shrink hs.bytes le_rfl rfl rfl id
    | exact hs.shrink hs.bytes le_rfl rfl rfl nofun
    | -- the pop
      obtain ⟨hle, hsub⟩ := hs.head ‹_›
      exact hs.shrink hsub (by dsimp only; rw [sizeSub_of_le hle]; omega) rfl rfl id

theorem step_sound (h : t.step i = some t') (hs : t.Sound) (hok : t.Small i) : t'.Sound := by
  cases i with
  | enqueue x => exact enqueueStep_sound h hs hok
  | send x => exact sendStep_sound h hs
  | deactivate => exact Option.some.inj h ▸ hs.shrink hs.bytes le_rfl rfl rfl nofun
  | _ => exact Option.some.inj h ▸ hs.shrink hs.bytes le_rfl rfl rfl id

/-! ## The order -/

/-- The main thread puts messages at the end, and drops some in the mode `DropOldest` only. -/
theorem enqueueStep_underway (h : t.enqueueStep x = some t') :
    (∃ new, t'.underway = t.underway ++ new ∧ t'.admitted = t.admitted ++ new) ∨
      t.txMode = .dropOldest ∧ t'.underway.Sublist t.underway ∧ t'.admitted = t.admitted := by
  unfold enqueueStep at h
  repeat' split at h
  all_goals simp only [Option.some.injEq, reduceCtorEq] at h
  all_goals subst h
  all_goals simp only [underway, admitted, ‹t.enqueue = _›, EnqueuePc.owed, List.append_nil]
  all_goals first
    | exact .inl ⟨[], (List.append_nil _).symm, (List.append_nil _).symm⟩
    | exact .inl ⟨_, (List.append_assoc _ _ _).symm, rfl⟩
    | exact .inr ⟨‹_›, (dropOldest_suffix _ _ _).sublist.append_left _, trivial⟩
    | exact .inl ⟨[], by simp [*]⟩

theorem sendStep_underway (h : t.sendStep x = some t') : t'.underway = t.underway ∧ t'.accepted = t.accepted := by
  unfold sendStep at h
  repeat' split at h
  all_goals simp only [Option.some.injEq, reduceCtorEq] at h
  all_goals subst h
  all_goals simp [underway, SendPc.inHand, *]

theorem step_txMode (h : t.step i = some t') : t'.txMode = t.txMode := by
  cases i <;> simp only [step, enqueueStep, sendStep] at h
  all_goals repeat' split at h
  all_goals simp only [Option.some.injEq, reduceCtorEq] at h
  all_goals subst h
  all_goals rfl

theorem step_ordered (h : t.step i = some t') (ho : t.Ordered) : t'.Ordered := by
  have hmode := step_txMode h
  have hsame : t'.underway = t.underway → t'.admitted = t.admitted → t'.Ordered := fun hu ha =>
    ⟨by rw [hu, ha]; exact ho.sublist, fun hm => by rw [hu, ha]; exact ho.exact (hmode ▸ hm)⟩
  cases i with
  | enqueue x =>
    rcases enqueueStep_underway h with ⟨new, hu, ha⟩ | ⟨hm, hu, ha⟩
    · exact ⟨by rw [hu, ha]; exact ho.sublist.append_right new, fun hm => by rw [hu, ha, ho.exact (hmode ▸ hm)]⟩
    · exact ⟨by rw [ha]; exact hu.trans ho.sublist, fun hm' => absurd (hmode.trans hm) hm'⟩
  | send x =>
    obtain ⟨hu, ha⟩ := sendStep_underway h
    exact hsame hu (by rw [admitted, ha, sendStep_enqueue h]; rfl)
  | _ => exact Option.some.inj h ▸ ⟨ho.sublist, ho.exact⟩

end Tx

/-! ## In every reachable state -/

variable {ok : Tx → TxMove → Prop} {t : Tx}

theorem ordered (h : txQueue.Reach ok t) : t.Ordered := by
  refine h.invariant Tx.Ordered ?_ fun t i t' _ ho _ hst => Tx.step_ordered hst ho
  rintro t ⟨mode, rfl⟩
  exact ⟨List.Sublist.refl _, fun _ => rfl⟩

theorem sound (h : txQueue.Reach Tx.Small t) : t.Sound := by
  refine h.invariant Tx.Sound ?_ fun t i t' _ hs hok hst => Tx.step_sound hst hs hok
  rintro t ⟨mode, rfl⟩
  exact ⟨rfl, Nat.zero_le _, nofun, fun _ => nofun⟩

/-- **The transmit queue of the client**, in each mode: while `m_txMutex` is free the counter is the sum of the queued
sizes and at most `TX_HWM`, and the messages on their way to the socket are accepted ones in order, all of them but in
the mode `DropOldest`; no subtraction wraps. -/
theorem txQueue_spec (h : txQueue.Reach Tx.Small t) :
    (t.txMutex = none →
      t.txBytesQueued = queueBytes t.txQueue ∧ t.txBytesQueued ≤ txHwm ∧
        (t.handed ++ t.send.inHand ++ t.txQueue).Sublist t.accepted ∧
        (t.txMode ≠ .dropOldest → t.handed ++ t.send.inHand ++ t.txQueue = t.accepted)) ∧
      (t.send = .pop → ∀ msg ∈ t.txQueue.head?, msg.length ≤ t.txBytesQueued) ∧
      ∀ msg, t.enqueue = .overflow msg → (dropOldest msg.length t.txQueue t.txBytesQueued).2 =
        queueBytes (dropOldest msg.length t.txQueue t.txBytesQueued).1 := by
  have hs := sound h
  refine ⟨fun hn => ?_, fun _ msg hm => ?_, fun msg hp => ?_⟩
  · have ho := ordered h
    have howed : t.admitted = t.accepted := by
      have hmain := (tx_owned h).not_holds hn .main
      simp only [Tx.HoldsTx] at hmain
      cases hp : t.enqueue <;> simp_all [Tx.admitted, EnqueuePc.HoldsTx, EnqueuePc.owed]
    rw [← howed]
    exact ⟨hs.bytes, hs.le, ho.sublist, ho.exact⟩
  · cases hq : t.txQueue with
    | nil => simp [hq] at hm
    | cons msg' queue =>
      simp only [hq, List.head?_cons, Option.mem_def, Option.some.injEq] at hm
      exact hm ▸ (hs.head hq).1
  · rw [hs.bytes]
    exact (dropOldest_bytes (hs.small msg (by rw [hp]; rfl)) t.txQueue).1

/-- In the mode `DropOldest`: the main thread queues two messages and `SendMessages` takes the first. -/
def queueTwo : List TxMove :=
  [TxMove.enqueue (.call [104, 105])] ++ List.replicate 5 (TxMove.enqueue .go) ++ [TxMove.enqueue (.call [33])] ++
    List.replicate 4 (TxMove.enqueue .go) ++ List.replicate 6 (TxMove.send .go)

theorem txQueue_spec_queueTwo :
    (txQueue.run (.start .dropOldest) queueTwo).map (fun t => (t.handed, t.txQueue)) =
        some ([[104, 105]], [[33]]) ∧
      ∀ t ∈ txQueue.run (.start .dropOldest) queueTwo,
        t.txBytesQueued = queueBytes t.txQueue ∧ (t.handed ++ t.send.inHand ++ t.txQueue).Sublist t.accepted := by
  have hinit : txQueue.Reach Tx.Small (.start .dropOldest) := .init ⟨_, rfl⟩
  refine ⟨by decide +kernel, fun t ht => ?_⟩
  have hreach := hinit.run_along ht (by decide +kernel)
  have hfree : t.txMutex = none := by
    have hm : (txQueue.run (.start .dropOldest) queueTwo).map (fun t => t.txMutex) = some none := by decide +kernel
    rw [Option.mem_def.1 ht] at hm
    exact Option.some.inj hm
  obtain ⟨hb, -, ho, -⟩ := (txQueue_spec hreach).1 hfree
  exact ⟨hb, ho⟩

end TcpChat.FramingClient
