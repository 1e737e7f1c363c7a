import TcpChat.FramingClient.Accounting

/-!
# The overflow policies of `TxEnqueueMessage`

One call of `TxEnqueueMessage`, from the lock of `m_txMutex` to the return, while the sender and the rest of the client
go on.

* `LongestFitting` — what `DropOldest` is for: the longest part of the queue that leaves room for the message;
* `Admits`, `Refuses` — in each mode, the queue that the message is put behind, and what a call that returns `false`
  leaves;
* `CallAt` — the invariant of the call, position by position;
* `txEnqueueMessage_policy` — what the call returns and leaves, in each mode.
-/

namespace TcpChat.FramingClient

open TcpChat.Framing TcpChat.Lib

/-- A message of `size` bytes fits behind the queue. -/
def Fits (size : ℕ) (queue : List (List UInt8)) : Prop := queueBytes queue + size ≤ txHwm

/-- The longest suffix of `old` behind which a message of `size` bytes fits. -/
structure LongestFitting (size : ℕ) (old queue : List (List UInt8)) : Prop where
  suffix : queue <:+ old
  fits : Fits size queue
  longest : ∀ q, q <:+ old → Fits size q → q <:+ queue

theorem not_wouldOverflow {size : ℕ} {queue : List (List UInt8)} :
    ¬ WouldOverflow (queueBytes queue) size ↔ Fits size queue := Nat.not_lt

theorem LongestFitting.of_fits {size : ℕ} {old : List (List UInt8)} (h : Fits size old) :
    LongestFitting size old old := ⟨List.suffix_refl _, h, fun _ hq _ => hq⟩

/-- The loop of `DropOldest` stops at the first point at which the message fits. -/
theorem dropOldest_longest {size : ℕ} (hsize : size ≤ txHwm) (queue : List (List UInt8)) :
    LongestFitting size queue (dropOldest size queue (queueBytes queue)).1 := by
  induction queue with
  | nil => exact .of_fits (by simpa [Fits] using hsize)
  | cons msg queue ih =>
    rw [dropOldest]
    split
    next hover =>
      have hsub : sizeSub (queueBytes (msg :: queue)) msg.length = queueBytes queue := by
        rw [queueBytes_cons, sizeSub_of_le (by omega)]
        omega
      rw [hsub]
      refine ⟨ih.suffix.trans (List.suffix_cons _ _), ih.fits, fun q hq hfits => ?_⟩
      rcases List.suffix_cons_iff.1 hq with rfl | hq
      · exact absurd hover (not_wouldOverflow.2 hfits)
      · exact ih.longest q hq hfits
    next hfits => exact .of_fits (not_wouldOverflow.1 hfits)

/-! ## The policies -/

/-- In a call that found the queue `old`, a message of `size` bytes may be put behind `queue`. -/
def Admits (mode : TxOverflowMode) (size : ℕ) (old queue : List (List UInt8)) : Prop :=
  match mode with
  | .dropOldest => LongestFitting size old queue
  | .dropNewest | .disconnectOnOverflow => queue = old ∧ Fits size old
  | .blockProducer => queue <:+ old ∧ queueBytes queue ≤ txLwm ∧ Fits size queue

/-- What a call that returns `false` and found the queue `old` leaves in the queue and in `m_isActive`. -/
def Refuses (mode : TxOverflowMode) (size : ℕ) (old queue : List (List UInt8)) (active : Bool) : Prop :=
  match mode with
  | .dropOldest => False
  | .dropNewest => ¬ Fits size old ∧ queue = old
  | .disconnectOnOverflow => ¬ Fits size old ∧ queue = old ∧ active = false
  | .blockProducer => queue <:+ old ∧ active = false

/-- What a call that found the queue `old` has done when it stands at a position, `queue` being the queue. -/
def CallAt (mode : TxOverflowMode) (msg : List UInt8) (old queue : List (List UInt8)) (active : Bool) :
    EnqueuePc → Prop
  | .lock _ => False
  | .pred _ | .park _ | .parked _ => mode = .blockProducer ∧ queue <:+ old
  | .retest _ => mode = .blockProducer ∧ queue <:+ old ∧ (active = true → Admits mode msg.length old queue)
  | .overflow _ => mode ≠ .blockProducer ∧ queue = old
  | .store _ => mode = .disconnectOnOverflow ∧ ¬ Fits msg.length old ∧ queue = old
  | .storeNotify _ => Refuses mode msg.length old queue active ∧ mode = .disconnectOnOverflow
  | .push _ => Admits mode msg.length old queue
  | .notify _ | .unlock _ true | .returned true => ∃ q, Admits mode msg.length old q ∧ queue = q ++ [msg]
  | .unlock _ false | .returned false => Refuses mode msg.length old queue active

/-- Steps that `TxEnqueueMessage` has left until it returns, unless it waits. -/
def EnqueuePc.left : EnqueuePc → ℕ
  | .returned _ => 0
  | .unlock _ _ => 1
  | .notify _ | .storeNotify _ => 2
  | .push _ | .store _ => 3
  | .overflow _ | .retest _ => 4
  | .lock _ | .pred _ | .park _ | .parked _ => 5

/-- Clearing `m_isActive` takes nothing back. -/
theorem Refuses.deactivate {mode : TxOverflowMode} {size : ℕ} {old queue : List (List UInt8)} {active active' : Bool}
    (h : Refuses mode size old queue active) (ha : active = false → active' = false) :
    Refuses mode size old queue active' := by
  cases mode with
  | dropOldest => exact h
  | dropNewest => exact h
  | disconnectOnOverflow => exact ⟨h.1, h.2.1, ha h.2.2⟩
  | blockProducer => exact ⟨h.1, ha h.2⟩

theorem CallAt.deactivate {mode : TxOverflowMode} {msg : List UInt8} {old queue : List (List UInt8)}
    {active active' : Bool} {pc : EnqueuePc} (h : CallAt mode msg old queue active pc)
    (ha : active = false → active' = false) : CallAt mode msg old queue active' pc := by
  cases pc with
  | retest m =>
    obtain ⟨hmode, hq, hadm⟩ := h
    refine ⟨hmode, hq, fun hact => hadm ?_⟩
    cases active
    · rw [ha rfl] at hact; cases hact
    · rfl
  | storeNotify m => exact ⟨h.1.deactivate ha, h.2⟩
  | unlock m ok =>
    cases ok with
    | true => exact h
    | false => exact Refuses.deactivate h ha
  | returned ok =>
    cases ok with
    | true => exact h
    | false => exact Refuses.deactivate h ha
  | _ => exact h

namespace Tx

/-- The invariant of a call for `msg` that found the queue `old`. -/
structure Calling (mode : TxOverflowMode) (msg : List UInt8) (old : List (List UInt8)) (t : Tx) : Prop where
  txMode : t.txMode = mode
  same : ∀ m ∈ t.enqueue.msg?, m = msg
  place : CallAt mode msg old t.txQueue t.active t.enqueue

/-- The call has not returned. -/
def InCall (t : Tx) (_ : TxMove) : Prop := ∀ ok, t.enqueue ≠ .returned ok

variable {t t' : Tx} {x : Input} {i : TxMove} {mode : TxOverflowMode} {msg : List UInt8} {old : List (List UInt8)}

/-- `SendMessages` changes the queue inside its critical section only, and there it takes messages out. -/
theorem sendStep_txQueue (h : t.sendStep x = some t') :
    t'.txQueue = t.txQueue ∨ t.send.HoldsTx ∧ t'.txQueue <:+ t.txQueue := by
  unfold sendStep at h
  repeat' split at h
  all_goals simp only [Option.some.injEq, reduceCtorEq] at h
  all_goals subst h
  all_goals first
    | exact .inl rfl
    | exact .inr ⟨by simp [SendPc.HoldsTx, *], by simp [*]⟩

/-- While the sender is inside its critical section the main thread waits for the mutex. -/
theorem Calling.sendStep (hc : t.Calling mode msg old) (hown : Owned t.txMutex t.HoldsTx) (hin : t.InCall (.send x))
    (h : t.sendStep x = some t') : t'.Calling mode msg old := by
  obtain ⟨hmode, hsame, hp⟩ := hc
  have he := sendStep_enqueue h
  have ha := step_inactive (i := .send x) h
  have hm := step_txMode (i := .send x) h
  refine ⟨hm.trans hmode, he ▸ hsame, he ▸ ?_⟩
  rcases sendStep_txQueue h with hq | ⟨hsend, hq⟩
  · exact hq ▸ hp.deactivate ha
  · have hout : ¬ t.enqueue.HoldsTx := fun hmain => by
      have hmain' : t.HoldsTx .main := hmain
      have hsend' : t.HoldsTx .send := hsend
      cases hown.excl hmain' hsend'
    cases hpc : t.enqueue with
    | parked m => rw [hpc] at hp; exact ⟨hp.1, hq.trans hp.2⟩
    | lock m => rw [hpc] at hp; exact hp.elim
    | returned ok => exact absurd hpc (hin ok)
    | _ => rw [hpc] at hout; exact absurd trivial hout

/-- Inside a call the main thread takes no input. -/
theorem enqueueStep_go (h : t.enqueueStep x = some t') (hin : t.InCall (.enqueue x)) : x = .go := by
  cases hpc : t.enqueue with
  | returned ok => exact absurd hpc (hin ok)
  | _ => cases x <;> simp [Tx.enqueueStep, hpc] at h ⊢

/-- The predicate of the wait: if it holds and the client is active, the message may be pushed. -/
theorem Calling.pred_step {m : List UInt8} (hc : t.Calling mode msg old) (hs : t.Sound) (hpc : t.enqueue = .pred m)
    (h : t.enqueueStep .go = some t') : t'.Calling mode msg old := by
  obtain ⟨hmode, hsame, hp⟩ := hc
  rw [hpc] at hp hsame
  obtain rfl := hsame m rfl
  simp only [Tx.enqueueStep, hpc, Option.some.injEq] at h
  subst h
  by_cases hcan : t.CanEnqueue m.length
  · simp only [hcan, if_true]
    refine ⟨hmode, hsame, hp.1, hp.2, fun hact => ?_⟩
    obtain ⟨hlwm, hfits⟩ := hcan.resolve_left (fun hin => by cases hact.symm.trans hin)
    rw [hs.bytes] at hlwm hfits
    rw [hp.1]
    exact ⟨hp.2, hlwm, not_wouldOverflow.1 hfits⟩
  · simp only [hcan, if_false]
    exact ⟨hmode, hsame, hp⟩

/-- The message does not fit: each mode does what it is named for. -/
theorem Calling.overflow_step {m : List UInt8} (hc : t.Calling mode msg old) (hs : t.Sound)
    (hpc : t.enqueue = .overflow m) (hover : WouldOverflow t.txBytesQueued m.length)
    (h : t.enqueueStep .go = some t') : t'.Calling mode msg old := by
  obtain ⟨hmode, hsame, hp⟩ := hc
  rw [hpc] at hp hsame
  obtain rfl := hsame m rfl
  obtain ⟨hne, rfl⟩ := hp
  have hsize : m.length ≤ txHwm := hs.small m (by rw [hpc]; rfl)
  have hfits : ¬ Fits m.length t.txQueue := fun hf => not_wouldOverflow.2 hf (hs.bytes ▸ hover)
  simp only [Tx.enqueueStep, hpc, hover, if_true] at h
  cases mode with
  | dropNewest =>
    simp only [hmode, Option.some.injEq] at h
    subst h
    exact ⟨rfl, hsame, hfits, rfl⟩
  | dropOldest =>
    simp only [hmode, Option.some.injEq] at h
    subst h
    refine ⟨rfl, hsame, ?_⟩
    simp only [hs.bytes]
    exact dropOldest_longest hsize t.txQueue
  | disconnectOnOverflow =>
    simp only [hmode, Option.some.injEq] at h
    subst h
    exact ⟨rfl, hsame, rfl, hfits, rfl⟩
  | blockProducer => exact absurd rfl hne

/-- The message fits: it is pushed in every mode. -/
theorem Calling.fits_step {m : List UInt8} (hc : t.Calling mode msg old) (hs : t.Sound)
    (hpc : t.enqueue = .overflow m) (hover : ¬ WouldOverflow t.txBytesQueued m.length)
    (h : t.enqueueStep .go = some t') : t'.Calling mode msg old := by
  obtain ⟨hmode, hsame, hp⟩ := hc
  rw [hpc] at hp hsame
  obtain rfl := hsame m rfl
  obtain ⟨hne, rfl⟩ := hp
  have hfits : Fits m.length t.txQueue := not_wouldOverflow.1 (hs.bytes ▸ hover)
  simp only [Tx.enqueueStep, hpc, hover, if_false, Option.some.injEq] at h
  subst h
  refine ⟨hmode, hsame, ?_⟩
  cases mode with
  | dropOldest => exact .of_fits hfits
  | blockProducer => exact absurd rfl hne
  | _ => exact ⟨rfl, hfits⟩

theorem Calling.push_step {m : List UInt8} (hc : t.Calling mode msg old) (hpc : t.enqueue = .push m)
    (h : t.enqueueStep .go = some t') : t'.Calling mode msg old := by
  obtain ⟨hmode, hsame, hp⟩ := hc
  rw [hpc] at hp hsame
  obtain rfl := hsame m rfl
  simp only [Tx.enqueueStep, hpc, Option.some.injEq] at h
  subst h
  by_cases hq : t.txQueue = []
  · simp only [hq, if_true]
    exact ⟨hmode, hsame, [], hq ▸ hp, rfl⟩
  · simp only [hq, if_false]
    exact ⟨hmode, hsame, _, hp, rfl⟩

/-- A step of the call itself. -/
theorem Calling.enqueueStep (hc : t.Calling mode msg old) (hs : t.Sound) (hin : t.InCall (.enqueue x))
    (h : t.enqueueStep x = some t') : t'.Calling mode msg old := by
  obtain rfl := enqueueStep_go h hin
  have ⟨hmode, hsame, hp⟩ := hc
  cases hpc : t.enqueue with
  | returned ok => exact absurd hpc (hin ok)
  | lock m => rw [hpc] at hp; exact hp.elim
  | pred m => exact hc.pred_step hs hpc h
  | overflow m =>
    by_cases hover : WouldOverflow t.txBytesQueued m.length
    · exact hc.overflow_step hs hpc hover h
    · exact hc.fits_step hs hpc hover h
  | push m => exact hc.push_step hpc h
  | retest m =>
    rw [hpc] at hp hsame
    obtain ⟨rfl, hq, hadm⟩ := hp
    simp only [Tx.enqueueStep, hpc, Option.some.injEq] at h
    subst h
    cases hact : t.active with
    | true => exact ⟨hmode, hsame, hadm hact⟩
    | false => exact ⟨hmode, hsame, hq, rfl⟩
  | parked m =>
    rw [hpc] at hp hsame
    simp only [Tx.enqueueStep, hpc, Option.ite_none_right_eq_some, Option.some.injEq] at h
    obtain ⟨-, rfl⟩ := h
    exact ⟨hmode, hsame, hp⟩
  | store m =>
    rw [hpc] at hp hsame
    obtain ⟨rfl, hfits, hq⟩ := hp
    simp only [Tx.enqueueStep, hpc, Option.some.injEq] at h
    subst h
    exact ⟨hmode, hsame, ⟨hfits, hq, rfl⟩, rfl⟩
  | storeNotify m =>
    rw [hpc] at hp hsame
    simp only [Tx.enqueueStep, hpc, Option.some.injEq] at h
    subst h
    exact ⟨hmode, hsame, hp.1⟩
  | unlock m ok =>
    rw [hpc] at hp
    simp only [Tx.enqueueStep, hpc, Option.some.injEq] at h
    subst h
    exact ⟨hmode, by simp [EnqueuePc.msg?], by cases ok <;> exact hp⟩
  | park m | notify m =>
    -- the queue stays, and what is known of it
    rw [hpc] at hp hsame
    simp only [Tx.enqueueStep, hpc, Option.some.injEq] at h
    subst h
    exact ⟨hmode, hsame, hp⟩

theorem Calling.step (hc : t.Calling mode msg old) (hs : t.Sound) (hown : Owned t.txMutex t.HoldsTx) (hin : t.InCall i)
    (h : t.step i = some t') : t'.Calling mode msg old := by
  cases i with
  | enqueue x => exact hc.enqueueStep hs hin h
  | send x => exact hc.sendStep hown hin h
  | deactivate => exact Option.some.inj h ▸ ⟨hc.txMode, hc.same, hc.place.deactivate fun _ => rfl⟩
  | _ => exact Option.some.inj h ▸ ⟨hc.txMode, hc.same, hc.place⟩

/-- Every step of the main thread brings the call nearer to its return, and the steps of the others change nothing
about that. -/
theorem Calling.progress (hc : t.Calling mode msg old) (hne : mode ≠ .blockProducer)
    (hin : ∀ ok, t.enqueue ≠ .returned ok) :
    (t.enqueueStep .go).isSome ∧
      ∀ i t', t.step i = some t' →
        t'.enqueue.left < t.enqueue.left ∨ (∀ x, i ≠ .enqueue x) ∧ t'.enqueue = t.enqueue := by
  have hmain : ∃ t', t.enqueueStep .go = some t' ∧ t'.enqueue.left < t.enqueue.left := by
    have hp := hc.place
    have hmode := hc.txMode
    cases hpc : t.enqueue with
    | returned ok => exact absurd hpc (hin ok)
    | lock m => rw [hpc] at hp; exact hp.elim
    | pred m => rw [hpc] at hp; exact absurd hp.1 hne
    | park m => rw [hpc] at hp; exact absurd hp.1 hne
    | parked m => rw [hpc] at hp; exact absurd hp.1 hne
    | retest m => rw [hpc] at hp; exact absurd hp.1 hne
    | overflow m =>
      simp only [Tx.enqueueStep, hpc]
      split
      · cases mode <;> simp [hmode, EnqueuePc.left]
      · simp [EnqueuePc.left]
    | push m =>
      by_cases hq : t.txQueue = [] <;> simp [Tx.enqueueStep, hpc, hq, EnqueuePc.left]
    | _ => simp [Tx.enqueueStep, hpc, EnqueuePc.left]
  obtain ⟨t₁, h₁, hlt⟩ := hmain
  refine ⟨by simp [h₁], fun j t' h => ?_⟩
  cases j with
  | enqueue x =>
    obtain rfl := enqueueStep_go h hin
    obtain rfl := Option.some.inj (h₁.symm.trans h)
    exact .inl hlt
  | send x => exact .inr ⟨fun _ => by simp, sendStep_enqueue h⟩
  | _ => exact .inr ⟨fun _ => by simp, Option.some.inj h ▸ rfl⟩

/-- The main thread clears `m_isActive` only on an overflow in the mode `DisconnectOnOverflow`. -/
theorem Calling.clears (hc : t.Calling mode msg old) (h : t.enqueueStep x = some t') (ha : t.active = true)
    (ha' : t'.active = false) : mode = .disconnectOnOverflow ∧ ¬ Fits msg.length old := by
  have hpc : ∃ m, t.enqueue = .store m := by
    unfold Tx.enqueueStep at h
    repeat' split at h
    all_goals simp only [Option.some.injEq, reduceCtorEq] at h
    all_goals subst h
    all_goals first
      | exact ⟨_, ‹_›⟩
      | cases ha.symm.trans ha'
  obtain ⟨m, hpc⟩ := hpc
  have hp := hc.place
  rw [hpc] at hp
  exact ⟨hp.1, hp.2.1⟩

/-- The lock of `m_txMutex` starts the call. -/
theorem calling_lock (hcall : t.enqueue = .lock msg) (h : t.step (.enqueue .go) = some t') :
    t'.Calling t.txMode msg t.txQueue := by
  simp only [Tx.step, Tx.enqueueStep, hcall, Option.ite_none_right_eq_some, Option.some.injEq] at h
  obtain ⟨-, rfl⟩ := h
  by_cases hmode : t.txMode = .blockProducer
  · simp only [hmode, if_true]
    exact ⟨rfl, by simp [EnqueuePc.msg?], rfl, List.suffix_refl _⟩
  · simp only [hmode, if_false]
    exact ⟨rfl, by simp [EnqueuePc.msg?], hmode, rfl⟩

end Tx

/-! ## A whole call -/

variable {t₀ t₁ t : Tx} {msg : List UInt8}

/-- What holds all along a call that starts at `t₁`. -/
theorem calling_reach {mode : TxOverflowMode} {old : List (List UInt8)} (hc : t₁.Calling mode msg old)
    (hs : t₁.Sound) (hown : Owned t₁.txMutex t₁.HoldsTx) (h : (txQueue.startedIn t₁).Reach Tx.InCall t) :
    t.Calling mode msg old ∧ t.Sound ∧ Owned t.txMutex t.HoldsTx := by
  refine h.invariant (fun t => t.Calling mode msg old ∧ t.Sound ∧ Owned t.txMutex t.HoldsTx) ?_ ?_
  · rintro t rfl
    exact ⟨hc, hs, hown⟩
  · rintro t i t' - ⟨hc, hs, hown⟩ hin hst
    have hsmall : t.Small i := by
      cases i with
      | enqueue x => rw [Tx.enqueueStep_go hst hin]; trivial
      | _ => trivial
    exact ⟨hc.step hs hown hin hst, Tx.step_sound hst hs hsmall, Tx.step_owned hst hown⟩

/-- In the modes that never take anything out, a call returns `false` exactly if the message does not fit. -/
theorem CallAt.newest {mode : TxOverflowMode} {old queue : List (List UInt8)} {active ok : Bool}
    (hmode : mode = .dropNewest ∨ mode = .disconnectOnOverflow)
    (h : CallAt mode msg old queue active (.returned ok)) :
    (ok = false ↔ ¬ Fits msg.length old) ∧ (ok = true → queue = old ++ [msg]) ∧
      (ok = false → queue = old ∧ (mode = .disconnectOnOverflow → active = false)) := by
  cases ok with
  | true =>
    obtain ⟨q, hadm, hq⟩ := h
    obtain ⟨rfl, hfits⟩ : q = old ∧ Fits msg.length old := by rcases hmode with rfl | rfl <;> exact hadm
    exact ⟨by simpa using hfits, fun _ => hq, by simp⟩
  | false =>
    rcases hmode with rfl | rfl
    · exact ⟨by simpa using h.1, by simp, fun _ => ⟨h.2, by simp⟩⟩
    · exact ⟨by simpa using h.1, by simp, fun _ => ⟨h.2.1, fun _ => h.2.2⟩⟩

/-- Where a call can stand that does not wait. -/
theorem CallAt.left_le {mode : TxOverflowMode} {old queue : List (List UInt8)} {active : Bool} {pc : EnqueuePc}
    (hmode : mode ≠ .blockProducer) (h : CallAt mode msg old queue active pc) : pc.left ≤ 4 := by
  cases pc with
  | lock m => exact h.elim
  | pred m | park m | parked m => exact absurd h.1 hmode
  | _ => simp [EnqueuePc.left]

/-- **`TxEnqueueMessage` implements its overflow policies.**  The call for `msg` takes the mutex in the state `t₀`,
whose counter is right and at most `TX_HWM`; `t` is any state of the call, up to its return, with the other threads
going on.

* In `DropOldest` it returns `true`, and the queue is the longest suffix of the old one behind which the message fits,
  and the message.
* In `DropNewest` and `DisconnectOnOverflow` it returns `false` exactly if the message does not fit, and leaves queue
  and counter; otherwise it appends.  `m_isActive` is cleared in the latter mode on an overflow and by no other step of
  the call.
* In `BlockProducer` it appends at a counter of at most `TX_LWM` with which the message fits, and returns `false` only
  if the client is not active any more.
* The counter is always the sum of the sizes, and in the modes other than `BlockProducer` the main thread can always
  take its next step, after at most 4 of which the call has returned. -/
theorem txEnqueueMessage_policy (hcall : t₀.enqueue = .lock msg) (hown : Owned t₀.txMutex t₀.HoldsTx)
    (hbytes : t₀.txBytesQueued = queueBytes t₀.txQueue) (hle : t₀.txBytesQueued ≤ txHwm) (hmsg : msg.length ≤ txHwm)
    (hlock : t₀.step (.enqueue .go) = some t₁) (h : (txQueue.startedIn t₁).Reach Tx.InCall t) :
    t.txBytesQueued = queueBytes t.txQueue ∧
    (∀ ok, t.enqueue = .returned ok →
      match t₀.txMode with
      | .dropOldest => ok = true ∧ ∃ queue, LongestFitting msg.length t₀.txQueue queue ∧ t.txQueue = queue ++ [msg]
      | .dropNewest =>
        (ok = false ↔ ¬ Fits msg.length t₀.txQueue) ∧ (ok = true → t.txQueue = t₀.txQueue ++ [msg]) ∧
          (ok = false → t.txQueue = t₀.txQueue ∧ t.txBytesQueued = t₀.txBytesQueued)
      | .disconnectOnOverflow =>
        (ok = false ↔ ¬ Fits msg.length t₀.txQueue) ∧ (ok = true → t.txQueue = t₀.txQueue ++ [msg]) ∧
          (ok = false → t.txQueue = t₀.txQueue ∧ t.txBytesQueued = t₀.txBytesQueued ∧ t.active = false)
      | .blockProducer =>
        (ok = true → ∃ queue, queue <:+ t₀.txQueue ∧ queueBytes queue ≤ txLwm ∧ Fits msg.length queue ∧
          t.txQueue = queue ++ [msg]) ∧ (ok = false → t.active = false)) ∧
    (∀ x t', t.enqueueStep x = some t' → t.active = true → t'.active = false →
      t₀.txMode = .disconnectOnOverflow ∧ ¬ Fits msg.length t₀.txQueue) ∧
    (t₀.txMode = .blockProducer → t.enqueue = .push msg → t.txBytesQueued ≤ txLwm ∧ Fits msg.length t.txQueue) ∧
    (t₀.txMode ≠ .blockProducer → t.enqueue.left ≤ 4 ∧ ((∀ ok, t.enqueue ≠ .returned ok) →
      (t.enqueueStep .go).isSome ∧ ∀ i t', t.step i = some t' →
        t'.enqueue.left < t.enqueue.left ∨ (∀ x, i ≠ .enqueue x) ∧ t'.enqueue = t.enqueue)) := by
  have hs₀ : t₀.Sound := by
    refine ⟨hbytes, by simpa [hcall, EnqueuePc.due] using hle, ?_, by simp [hcall]⟩
    simpa [hcall, EnqueuePc.msg?] using hmsg
  have hs₁ := Tx.step_sound hlock hs₀ trivial
  obtain ⟨hc, hs, -⟩ := calling_reach (Tx.calling_lock hcall hlock) hs₁ (Tx.step_owned hlock hown) h
  have hp := hc.place
  refine ⟨hs.bytes, fun ok hret => ?_, fun x t' hst ha ha' => hc.clears hst ha ha', fun hmode hpush => ?_,
    fun hmode => ⟨hp.left_le hmode, fun hin => hc.progress hmode hin⟩⟩
  · rw [hret] at hp
    have hsame : t.txQueue = t₀.txQueue → t.txBytesQueued = t₀.txBytesQueued := fun hq => by
      rw [hs.bytes, hbytes, hq]
    cases hmode : t₀.txMode with
    | dropOldest =>
      rw [hmode] at hp
      cases ok with
      | true => exact ⟨rfl, hp⟩
      | false => exact hp.elim
    | dropNewest =>
      obtain ⟨hiff, hpushed, hleft⟩ := hp.newest (.inl hmode)
      exact ⟨hiff, hpushed, fun hok => ⟨(hleft hok).1, hsame (hleft hok).1⟩⟩
    | disconnectOnOverflow =>
      obtain ⟨hiff, hpushed, hleft⟩ := hp.newest (.inr hmode)
      exact ⟨hiff, hpushed, fun hok => ⟨(hleft hok).1, hsame (hleft hok).1, (hleft hok).2 hmode⟩⟩
    | blockProducer =>
      rw [hmode] at hp
      cases ok with
      | true =>
        obtain ⟨q, ⟨hsuf, hlwm, hfits⟩, hq⟩ := hp
        exact ⟨fun _ => ⟨q, hsuf, hlwm, hfits, hq⟩, by simp⟩
      | false => exact ⟨by simp, fun _ => hp.2⟩
  · rw [hpush, hmode] at hp
    exact ⟨hs.bytes ▸ hp.2.1, hp.2.2⟩

/-- A call for one byte that finds the message `m` of `TX_HWM` bytes in the queue. -/
def callOnFull (mode : TxOverflowMode) (m : List UInt8) : Tx :=
  { Tx.start mode with
    txQueue := [m], txBytesQueued := txHwm, enqueue := .lock [33] }

/-- Inside that call, when the main thread stands at a position. -/
def insideOnFull (mode : TxOverflowMode) (m : List UInt8) (pc : EnqueuePc) : Tx :=
  { callOnFull mode m with txMutex := some .main, enqueue := pc }

theorem txEnqueueMessage_policy_full :
    ∃ m t₁ t, m.length = txHwm ∧ (callOnFull .dropNewest m).step (.enqueue .go) = some t₁ ∧
      (txQueue.startedIn t₁).Reach Tx.InCall t ∧ t.enqueue = .returned false ∧ t.txQueue = [m] ∧
        t.txBytesQueued = txHwm := by
  obtain ⟨m, hm⟩ : ∃ m : List UInt8, m.length = txHwm := ⟨List.replicate txHwm 0, List.length_replicate⟩
  have hlock : (callOnFull .dropNewest m).step (.enqueue .go) =
      some (insideOnFull .dropNewest m (.overflow [33])) := rfl
  have hstart : (txQueue.startedIn (insideOnFull .dropNewest m (.overflow [33]))).Reach Tx.InCall _ := .init rfl
  have hover : (txQueue.startedIn (insideOnFull .dropNewest m (.overflow [33]))).Reach Tx.InCall
      (insideOnFull .dropNewest m (.unlock [33] false)) :=
    hstart.step (i := .enqueue .go) (by simp [Tx.InCall, insideOnFull]) rfl
  have hr : (txQueue.startedIn (insideOnFull .dropNewest m (.overflow [33]))).Reach Tx.InCall
      { insideOnFull .dropNewest m (.returned false) with txMutex := none } :=
    hover.step (i := .enqueue .go) (by simp [Tx.InCall, insideOnFull]) rfl
  have hown : Owned (callOnFull .dropNewest m).txMutex (callOnFull .dropNewest m).HoldsTx := by
    refine .of_none fun u => ?_
    cases u <;> exact id
  have hpol := txEnqueueMessage_policy rfl hown (by simp [callOnFull, hm]) le_rfl (by decide) hlock hr
  obtain ⟨hq, hb⟩ := (hpol.2.1 false rfl).2.2 rfl
  exact ⟨m, _, _, hm, hlock, hr, rfl, hq, hb⟩

end TcpChat.FramingClient
