import TcpChat.Framing.Stepwise
import TcpChat.Lib.System
import TcpChat.Lib.Mutex

/-!
# The transmit queue of the framing client

The transmit side of `Protocols/Framing/Client`: `TxEnqueueMessage`, called by the main thread any number of times with
any messages, and `SendMessages`.  What the other code does to it is a move of the environment: `m_isActive` is
cleared, a condition variable is notified, the socket is shut down for sending.  `FramingClient.Model` puts it into
the whole client.

A step is one access to the state that the threads share; the statements on `m_txQueue` and `m_txBytesQueued` within one
critical section are taken together, since nobody else can look in between.

* `dropOldest` — the loop of the mode `DropOldest`, and what it leaves;
* `Tx`, `txQueue` — the state and the steps;
* `tx_owned` — the holder of `m_txMutex` is the thread inside the critical section.
-/

namespace TcpChat.FramingClient

open TcpChat.Framing TcpChat.Lib

/-- `TX_HWM`, 1 MB -/
def txHwm : ℕ := 1024 * 1024

/-- `TX_LWM`, 0.5 MB -/
def txLwm : ℕ := 512 * 1024

inductive TxOverflowMode where
  | blockProducer | dropNewest | dropOldest | disconnectOnOverflow
  deriving DecidableEq

inductive Thread where
  | main | recv | print | send
  deriving DecidableEq

/-- `a - b` of type `size_t`. -/
def sizeSub (a b : ℕ) : ℕ := if b ≤ a then a - b else a + 2 ^ 64 - b

theorem sizeSub_of_le {a b : ℕ} (h : b ≤ a) : sizeSub a b = a - b := if_pos h

/-- The sum of the sizes of the messages of a queue. -/
def queueBytes (queue : List (List UInt8)) : ℕ := (queue.map List.length).sum

@[simp] theorem queueBytes_nil : queueBytes [] = 0 := rfl

@[simp] theorem queueBytes_cons (msg : List UInt8) (queue : List (List UInt8)) :
    queueBytes (msg :: queue) = msg.length + queueBytes queue := by simp [queueBytes]

@[simp] theorem queueBytes_concat (queue : List (List UInt8)) (msg : List UInt8) :
    queueBytes (queue ++ [msg]) = queueBytes queue + msg.length := by simp [queueBytes]

/-- `wouldOverflowMsgs()`, with `bytes` in the queue and for a message of `size` bytes. -/
def WouldOverflow (bytes size : ℕ) : Prop := txHwm < bytes + size

instance (bytes size : ℕ) : Decidable (WouldOverflow bytes size) := inferInstanceAs (Decidable (_ < _))

/-- `while (!m_txQueue.empty() && wouldOverflowMsgs())` of the mode `DropOldest`: what it leaves in `m_txQueue` and
`m_txBytesQueued`. -/
def dropOldest (size : ℕ) : List (List UInt8) → ℕ → List (List UInt8) × ℕ
  | [], bytes => ([], bytes)
  | msg :: queue, bytes =>
    if WouldOverflow bytes size then dropOldest size queue (sizeSub bytes msg.length) else (msg :: queue, bytes)

/-- The loop drops from the front. -/
theorem dropOldest_suffix (size : ℕ) (queue : List (List UInt8)) (bytes : ℕ) :
    (dropOldest size queue bytes).1 <:+ queue := by
  induction queue generalizing bytes with
  | nil => exact List.suffix_refl _
  | cons msg queue ih =>
    rw [dropOldest]
    split
    · exact (ih _).trans (List.suffix_cons _ _)
    · exact List.suffix_refl _

/-- **The loop keeps the counter right**, and goes on until the message fits. -/
theorem dropOldest_bytes {size : ℕ} (hsize : size ≤ txHwm) (queue : List (List UInt8)) :
    (dropOldest size queue (queueBytes queue)).2 = queueBytes (dropOldest size queue (queueBytes queue)).1 ∧
      (dropOldest size queue (queueBytes queue)).2 + size ≤ txHwm := by
  induction queue with
  | nil => exact ⟨rfl, by simpa [dropOldest] using hsize⟩
  | cons msg queue ih =>
    have hsub : sizeSub (queueBytes (msg :: queue)) msg.length = queueBytes queue := by
      rw [queueBytes_cons, sizeSub_of_le (by omega)]
      omega
    rw [dropOldest]
    split
    · rw [hsub]
      exact ih
    · exact ⟨rfl, Nat.le_of_not_lt ‹_›⟩

/-! ## Positions -/

/-- Where the main thread stands with `TxEnqueueMessage`: in it, or outside with the result of the last call. -/
inductive EnqueuePc where
  | returned (ok : Bool)
  | lock (msg : List UInt8) | pred (msg : List UInt8) | park (msg : List UInt8) | parked (msg : List UInt8)
  | retest (msg : List UInt8) | overflow (msg : List UInt8) | store (msg : List UInt8) | storeNotify (msg : List UInt8)
  | push (msg : List UInt8) | notify (msg : List UInt8) | unlock (msg : List UInt8) (ok : Bool)
  deriving DecidableEq

/-- `SendMessages` -/
inductive SendPc where
  | lock | pred | park | parked | test | breakUnlock | pop
  | notify (msg : List UInt8) | unlock (msg : List UInt8) | frame (msg : List UInt8) (w : FrameWriter)
  | failStore | failNotifyEmpty | failNotifyFull | done
  deriving DecidableEq

/-! ## State -/

/-- The members of `ChatClient` that the transmit side works on. -/
structure Tx where
  active : Bool
  txMode : TxOverflowMode
  txMutex : Option Thread
  txNotEmpty : List Thread
  txNotFull : List Thread
  txQueue : List (List UInt8)
  txBytesQueued : ℕ
  enqueue : EnqueuePc
  send : SendPc
  /-- The socket has not been shut down for sending or closed. -/
  sendOpen : Bool
  wire : List UInt8
  /-- History: the messages for which `TxEnqueueMessage` returned `true`, those handed to `send_frame`, and those for
  which `send_frame` returned `true`. -/
  accepted : List (List UInt8)
  handed : List (List UInt8)
  written : List (List UInt8)

/-- The transmit side when `Run` has started the threads. -/
def Tx.start (txMode : TxOverflowMode) : Tx where
  active := true
  txMode := txMode
  txMutex := none
  txNotEmpty := []
  txNotFull := []
  txQueue := []
  txBytesQueued := 0
  enqueue := .returned true
  send := .lock
  sendOpen := true
  wire := []
  accepted := []
  handed := []
  written := []

/-- The environment's part in a step. -/
inductive Input where
  | go
  | line (msg : List UInt8) | eof
  | call (msg : List UInt8)
  | count (n : ℕ) | closed | error (e : WsaError)
  deriving DecidableEq

/-- The moves of the transmit queue: a step of one of its two threads, or what the rest of the client does to it. -/
inductive TxMove where
  | enqueue (x : Input) | send (x : Input)
  | deactivate | notifyNotEmpty | notifyNotFull | shutdown
  deriving DecidableEq

namespace Tx

/-- The wait predicate of `TxEnqueueMessage` for a message of `size` bytes. -/
def CanEnqueue (t : Tx) (size : ℕ) : Prop :=
  t.active = false ∨ (t.txBytesQueued ≤ txLwm ∧ ¬ WouldOverflow t.txBytesQueued size)

instance (t : Tx) (size : ℕ) : Decidable (t.CanEnqueue size) := inferInstanceAs (Decidable (_ ∨ _))

/-- The wait predicate of `SendMessages`. -/
def CanSend (t : Tx) : Prop := t.active = false ∨ t.txQueue ≠ []

instance (t : Tx) : Decidable t.CanSend := inferInstanceAs (Decidable (_ ∨ _))

/-- `send(m_socket, data, data.length, 0)`: what it may report, and the bytes accepted. -/
def sendCall (t : Tx) (data : List UInt8) : Input → Option (SendResult × List UInt8)
  | .count n => if t.sendOpen = true ∧ 0 < n ∧ n ≤ data.length then some (.count n, data.take n) else none
  | .closed => some (.closed, [])
  | .error e => some (.error e, [])
  | _ => none

/-! ## Steps -/

/-- One step of the main thread in `TxEnqueueMessage`. -/
def enqueueStep (t : Tx) (x : Input) : Option Tx :=
  match t.enqueue, x with
  | .returned _, .call msg => some { t with enqueue := .lock msg }
  | .lock msg, .go =>
    if t.txMutex = none then
      some { t with txMutex := some .main, enqueue := if t.txMode = .blockProducer then .pred msg else .overflow msg }
    else none
  | .pred msg, .go => some { t with enqueue := if t.CanEnqueue msg.length then .retest msg else .park msg }
  | .park msg, .go => some { t with txMutex := none, txNotFull := .main :: t.txNotFull, enqueue := .parked msg }
  | .parked msg, .go =>
    if t.txMutex = none then
      some { t with txMutex := some .main, txNotFull := t.txNotFull.erase .main, enqueue := .pred msg }
    else none
  | .retest msg, .go => some { t with enqueue := if t.active then .push msg else .unlock msg false }
  | .overflow msg, .go =>
    if WouldOverflow t.txBytesQueued msg.length then
      match t.txMode with
      | .dropNewest => some { t with enqueue := .unlock msg false }
      | .dropOldest =>
        some { t with
          txQueue := (dropOldest msg.length t.txQueue t.txBytesQueued).1,
          txBytesQueued := (dropOldest msg.length t.txQueue t.txBytesQueued).2, enqueue := .push msg }
      | .disconnectOnOverflow => some { t with enqueue := .store msg }
      | .blockProducer => some { t with enqueue := .push msg }
    else some { t with enqueue := .push msg }
  | .store msg, .go => some { t with active := false, enqueue := .storeNotify msg }
  | .storeNotify msg, .go => some { t with txNotEmpty := [], enqueue := .unlock msg false }
  | .push msg, .go =>
    some { t with
      txQueue := t.txQueue ++ [msg], txBytesQueued := t.txBytesQueued + msg.length,
      enqueue := if t.txQueue = [] then .notify msg else .unlock msg true }
  | .notify msg, .go => some { t with txNotEmpty := [], enqueue := .unlock msg true }
  | .unlock msg ok, .go =>
    some { t with txMutex := none, accepted := if ok then t.accepted ++ [msg] else t.accepted, enqueue := .returned ok }
  | _, _ => none

/-- One step of `SendMessages`. -/
def sendStep (t : Tx) (x : Input) : Option Tx :=
  match t.send, x with
  | .lock, .go => if t.txMutex = none then some { t with txMutex := some .send, send := .pred } else none
  | .pred, .go => some { t with send := if t.CanSend then .test else .park }
  | .park, .go => some { t with txMutex := none, txNotEmpty := .send :: t.txNotEmpty, send := .parked }
  | .parked, .go =>
    if t.txMutex = none then
      some { t with txMutex := some .send, txNotEmpty := t.txNotEmpty.erase .send, send := .pred }
    else none
  | .test, .go => some { t with send := if t.active = false ∧ t.txQueue = [] then .breakUnlock else .pop }
  | .breakUnlock, .go => some { t with txMutex := none, send := .done }
  | .pop, .go =>
    match t.txQueue with
    | [] => none
    | msg :: queue =>
      some { t with
        txQueue := queue, txBytesQueued := sizeSub t.txBytesQueued msg.length,
        send := if sizeSub t.txBytesQueued msg.length ≤ txLwm then .notify msg else .unlock msg }
  | .notify msg, .go => some { t with txNotFull := [], send := .unlock msg }
  | .unlock msg, .go =>
    match FrameWriter.start msg with
    | .again w => some { t with txMutex := none, handed := t.handed ++ [msg], send := .frame msg w }
    | .ret true =>
      some { t with txMutex := none, handed := t.handed ++ [msg], written := t.written ++ [msg], send := .lock }
    | .ret false => some { t with txMutex := none, handed := t.handed ++ [msg], send := .failStore }
  | .frame msg w, x =>
    match t.sendCall (w.offer msg) x with
    | none => none
    | some (res, out) =>
      match w.turn msg res with
      | .again w' => some { t with wire := t.wire ++ out, send := .frame msg w' }
      | .ret true => some { t with wire := t.wire ++ out, written := t.written ++ [msg], send := .lock }
      | .ret false => some { t with wire := t.wire ++ out, send := .failStore }
  | .failStore, .go => some { t with active := false, send := .failNotifyEmpty }
  | .failNotifyEmpty, .go => some { t with txNotEmpty := [], send := .failNotifyFull }
  | .failNotifyFull, .go => some { t with txNotFull := [], send := .done }
  | _, _ => none

/-- One move. -/
def step (t : Tx) : TxMove → Option Tx
  | .enqueue x => t.enqueueStep x
  | .send x => t.sendStep x
  | .deactivate => some { t with active := false }
  | .notifyNotEmpty => some { t with txNotEmpty := [] }
  | .notifyNotFull => some { t with txNotFull := [] }
  | .shutdown => some { t with sendOpen := false }

end Tx

/-- The transmit queue of a running client, in each of the four modes. -/
def txQueue : System Tx TxMove where
  init t := ∃ txMode, t = .start txMode
  step := Tx.step

/-! ## The mutex -/

/-- Positions between a `lock` of `m_txMutex` and its `unlock`. -/
def EnqueuePc.HoldsTx : EnqueuePc → Prop
  | .returned _ | .lock _ | .parked _ => False
  | _ => True

def SendPc.HoldsTx : SendPc → Prop
  | .pred | .park | .test | .breakUnlock | .pop | .notify _ | .unlock _ => True
  | _ => False

namespace Tx

/-- The thread is inside the critical section. -/
def HoldsTx (t : Tx) : Thread → Prop
  | .main => t.enqueue.HoldsTx
  | .send => t.send.HoldsTx
  | _ => False

variable {t t' : Tx} {x : Input} {i : TxMove}

theorem enqueueStep_send (h : t.enqueueStep x = some t') : t'.send = t.send := by
  unfold enqueueStep at h
  repeat' split at h
  all_goals simp only [Option.some.injEq, reduceCtorEq] at h
  all_goals subst h
  all_goals rfl

theorem sendStep_enqueue (h : t.sendStep x = some t') : t'.enqueue = t.enqueue := by
  unfold sendStep at h
  repeat' split at h
  all_goals simp only [Option.some.injEq, reduceCtorEq] at h
  all_goals subst h
  all_goals rfl

theorem enqueueStep_tx (h : t.enqueueStep x = some t') :
    LockStep .main t.txMutex t'.txMutex (t.HoldsTx .main) (t'.HoldsTx .main) := by
  unfold enqueueStep at h
  repeat' split at h
  all_goals simp only [Option.some.injEq, reduceCtorEq] at h
  all_goals subst h
  all_goals simp [LockStep, HoldsTx, EnqueuePc.HoldsTx, *]

theorem sendStep_tx (h : t.sendStep x = some t') :
    LockStep .send t.txMutex t'.txMutex (t.HoldsTx .send) (t'.HoldsTx .send) := by
  unfold sendStep at h
  repeat' split at h
  all_goals simp only [Option.some.injEq, reduceCtorEq] at h
  all_goals subst h
  all_goals simp [LockStep, HoldsTx, SendPc.HoldsTx, *]

theorem step_owned (h : t.step i = some t') (ho : Owned t.txMutex t.HoldsTx) : Owned t'.txMutex t'.HoldsTx := by
  cases i with
  | enqueue x =>
    refine ho.step (enqueueStep_tx h) fun u hu => ?_
    cases u <;> simp_all [HoldsTx, enqueueStep_send h]
  | send x =>
    refine ho.step (sendStep_tx h) fun u hu => ?_
    cases u <;> simp_all [HoldsTx, sendStep_enqueue h]
  | _ => exact Option.some.inj h ▸ ho

/-- Nobody sets `m_isActive` again. -/
theorem step_inactive (h : t.step i = some t') (ha : t.active = false) : t'.active = false := by
  cases i <;> simp only [step, enqueueStep, sendStep] at h
  all_goals repeat' split at h
  all_goals simp only [Option.some.injEq, reduceCtorEq] at h
  all_goals subst h
  all_goals first
    | exact ha
    | rfl

end Tx

theorem tx_owned {ok : Tx → TxMove → Prop} {t : Tx} (h : txQueue.Reach ok t) : Owned t.txMutex t.HoldsTx := by
  refine h.invariant (fun t => Owned t.txMutex t.HoldsTx) ?_ fun t i t' _ ih _ hst => Tx.step_owned hst ih
  rintro t ⟨mode, rfl⟩
  refine .of_none fun u => ?_
  cases u <;> exact id

end TcpChat.FramingClient
