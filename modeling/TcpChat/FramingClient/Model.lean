import TcpChat.FramingClient.Accounting

/-!
# The framing client

The four threads of `Protocols/Framing/Client` from the point in `Run` at which they have been started: the main thread
(`CinMessages`, `Disconnect` with `GracefulShutDown`, the joins), `ReceiveMessages`, `PrintMessages`, and `SendMessages`
with the transmit queue of `FramingClient.TxQueue`.

* `m_isActive`, which all threads use, is kept with the transmit queue.
* `unread` holds all the bytes that the server has still to deliver; both `ReceiveMessages` and `GracefulShutDown` take
  bytes from it.
* `step_tx`, `tx_reach` — the transmit queue inside the client only makes the moves of `txQueue`;
* `rx_owned` — the holder of `m_rxMutex` is the thread inside the critical section.
-/

namespace TcpChat.FramingClient

open TcpChat.Framing TcpChat.Lib

/-- `MAX_RX_QUEUE_SIZE` -/
def maxRxQueueSize : ℕ := 500

inductive RxOverflowMode where
  | dropNewest | dropOldest | disconnectOnOverflow
  deriving DecidableEq

/-! ## Positions -/

/-- `CinMessages`, then `Disconnect` from `store` to `close`, then the joins of `Run`.  `close` remembers where the
`recv_frame` stood that has made `GracefulShutDown` return. -/
inductive MainPc where
  | getline | lineTest (msg : List UInt8) | enqueue
  | store | notifyRx | notifyNotEmpty | notifyNotFull | testSocket | shutdown | drain (r : FrameReader)
  | close (r : FrameReader)
  | joinRecv | joinSend | joinPrint | done
  deriving DecidableEq

/-- `ReceiveMessages` -/
inductive RecvPc where
  | test | frame (r : FrameReader) | lock (msg : List UInt8) | body (msg : List UInt8) | notify | unlock
  | overflowStore | overflowUnlock | overflowNotify | failStore | failNotify | done
  deriving DecidableEq

/-- `PrintMessages` -/
inductive PrintPc where
  | lock | pred | park | parked | test | breakUnlock | pop | unlock (msg : List UInt8) | print (msg : List UInt8) | done
  deriving DecidableEq

/-! ## State -/

/-- `ChatClient` -/
structure Client where
  tx : Tx
  /-- `m_socket != INVALID_SOCKET` -/
  valid : Bool
  stream : List UInt8
  unread : List UInt8
  rxMode : RxOverflowMode
  rxMutex : Option Thread
  rxCV : List Thread
  rxQueue : List (List UInt8)
  main : MainPc
  recv : RecvPc
  print : PrintPc
  /-- History: the lines that `getline` has read and whether it has reached the end of the input. -/
  lines : List (List UInt8)
  eof : Bool
  /-- History: the payloads that `ReceiveMessages` has received and those it has pushed; the printed messages. -/
  received : List (List UInt8)
  pushed : List (List UInt8)
  printed : List (List UInt8)

/-- The client when `Run` has started its threads, on a connection whose server will send `stream`. -/
def Client.start (txMode : TxOverflowMode) (rxMode : RxOverflowMode) (stream : List UInt8) : Client where
  tx := .start txMode
  valid := true
  stream := stream
  unread := stream
  rxMode := rxMode
  rxMutex := none
  rxCV := []
  rxQueue := []
  main := .getline
  recv := .test
  print := .lock
  lines := []
  eof := false
  received := []
  pushed := []
  printed := []

namespace Client

/-- `recv(m_socket, buf, wants, 0)`: what it may report, and the bytes that stay unread. -/
def recvCall (c : Client) (wants : ℕ) : Input → Option (RecvResult × List UInt8)
  | .count n =>
    if c.valid = true ∧ 0 < n ∧ n ≤ wants ∧ n ≤ c.unread.length then some (.bytes (c.unread.take n), c.unread.drop n)
    else none
  | .closed => if c.unread = [] then some (.closed, []) else none
  | .error e => some (.error e, c.unread)
  | _ => none

/-- The wait predicate of `PrintMessages`. -/
def CanPrint (c : Client) : Prop := c.tx.active = false ∨ c.rxQueue ≠ []

instance (c : Client) : Decidable c.CanPrint := inferInstanceAs (Decidable (_ ∨ _))

/-- `m_rxQueue` is full. -/
def WouldOverflowRx (c : Client) : Prop := maxRxQueueSize ≤ toUInt32 c.rxQueue.length

instance (c : Client) : Decidable c.WouldOverflowRx := inferInstanceAs (Decidable (_ ≤ _))

/-! ## Steps -/

/-- One step of the main thread. -/
def mainStep (c : Client) (x : Input) : Option Client :=
  match c.main, x with
  -- CinMessages
  | .getline, .line msg => some { c with lines := c.lines ++ [msg], main := .lineTest msg }
  | .getline, .eof => some { c with eof := true, main := .store }
  | .lineTest msg, .go =>
    if c.tx.active = false then some { c with main := .store }
    else if txHwm < msg.length then some { c with main := .store }
    else (c.tx.enqueueStep (.call msg)).map fun tx => { c with tx := tx, main := .enqueue }
  | .enqueue, .go =>
    match c.tx.enqueue with
    | .returned ok => some { c with main := if ok then .getline else .store }
    | _ => (c.tx.enqueueStep .go).map fun tx => { c with tx := tx }
  -- Disconnect
  | .store, .go => some { c with tx := { c.tx with active := false }, main := .notifyRx }
  | .notifyRx, .go => some { c with rxCV := [], main := .notifyNotEmpty }
  | .notifyNotEmpty, .go => some { c with tx := { c.tx with txNotEmpty := [] }, main := .notifyNotFull }
  | .notifyNotFull, .go => some { c with tx := { c.tx with txNotFull := [] }, main := .testSocket }
  | .testSocket, .go => some { c with main := if c.valid then .shutdown else .joinRecv }
  | .shutdown, .go => some { c with tx := { c.tx with sendOpen := false }, main := .drain .start }
  | .drain r, x =>
    match c.recvCall r.wants x with
    | none => none
    | some (res, unread) =>
      match r.turn res with
      | .again r' => some { c with unread := unread, main := .drain r' }
      | .ret (some _) => some { c with unread := unread, main := .drain .start }
      | .ret none => some { c with unread := unread, main := .close r }
  | .close _, .go => some { c with valid := false, main := .joinRecv }
  -- Run
  | .joinRecv, .go => if c.recv = .done then some { c with main := .joinSend } else none
  | .joinSend, .go => if c.tx.send = .done then some { c with main := .joinPrint } else none
  | .joinPrint, .go => if c.print = .done then some { c with main := .done } else none
  | _, _ => none

/-- One step of `ReceiveMessages`. -/
def recvStep (c : Client) (x : Input) : Option Client :=
  match c.recv, x with
  | .test, .go => some { c with recv := if c.tx.active then .frame .start else .done }
  | .frame r, x =>
    match c.recvCall r.wants x with
    | none => none
    | some (res, unread) =>
      match r.turn res with
      | .again r' => some { c with unread := unread, recv := .frame r' }
      | .ret none => some { c with unread := unread, recv := .failStore }
      | .ret (some msg) => some { c with unread := unread, received := c.received ++ [msg], recv := .lock msg }
  | .lock msg, .go => if c.rxMutex = none then some { c with rxMutex := some .recv, recv := .body msg } else none
  | .body msg, .go =>
    if c.WouldOverflowRx then
      match c.rxMode with
      | .dropNewest => some { c with recv := .unlock }
      | .dropOldest =>
        some { c with rxQueue := c.rxQueue.drop 1 ++ [msg], pushed := c.pushed ++ [msg], recv := .notify }
      | .disconnectOnOverflow => some { c with recv := .overflowStore }
    else some { c with rxQueue := c.rxQueue ++ [msg], pushed := c.pushed ++ [msg], recv := .notify }
  | .notify, .go => some { c with rxCV := [], recv := .unlock }
  | .unlock, .go => some { c with rxMutex := none, recv := .test }
  | .overflowStore, .go => some { c with tx := { c.tx with active := false }, recv := .overflowUnlock }
  | .overflowUnlock, .go => some { c with rxMutex := none, recv := .overflowNotify }
  | .overflowNotify, .go => some { c with rxCV := [], recv := .done }
  | .failStore, .go => some { c with tx := { c.tx with active := false }, recv := .failNotify }
  | .failNotify, .go => some { c with rxCV := [], recv := .done }
  | _, _ => none

/-- One step of `PrintMessages`. -/
def printStep (c : Client) (x : Input) : Option Client :=
  match c.print, x with
  | .lock, .go => if c.rxMutex = none then some { c with rxMutex := some .print, print := .pred } else none
  | .pred, .go => some { c with print := if c.CanPrint then .test else .park }
  | .park, .go => some { c with rxMutex := none, rxCV := .print :: c.rxCV, print := .parked }
  | .parked, .go =>
    if c.rxMutex = none then some { c with rxMutex := some .print, rxCV := c.rxCV.erase .print, print := .pred }
    else none
  | .test, .go => some { c with print := if c.tx.active = false ∧ c.rxQueue = [] then .breakUnlock else .pop }
  | .breakUnlock, .go => some { c with rxMutex := none, print := .done }
  | .pop, .go =>
    match c.rxQueue with
    | [] => none
    | msg :: queue => some { c with rxQueue := queue, print := .unlock msg }
  | .unlock msg, .go => some { c with rxMutex := none, print := .print msg }
  | .print msg, .go => some { c with printed := c.printed ++ [msg], print := .lock }
  | _, _ => none

/-- One step of a thread. -/
def step (c : Client) : Thread × Input → Option Client
  | (.main, x) => c.mainStep x
  | (.recv, x) => c.recvStep x
  | (.print, x) => c.printStep x
  | (.send, x) => (c.tx.sendStep x).map fun tx => { c with tx := tx }

end Client

/-- The running client, in each of its modes. -/
def client : System Client (Thread × Input) where
  init c := ∃ txMode rxMode stream, c = .start txMode rxMode stream
  step := Client.step

namespace Client

variable {c c' : Client} {t : Thread} {x : Input}

/-! ## What a step leaves alone -/

/-- The positions of the other threads are the same, and only the main thread returns from `TxEnqueueMessage`. -/
structure SamePc (t : Thread) (c c' : Client) : Prop where
  main : t ≠ .main → c'.main = c.main ∧ c'.tx.enqueue = c.tx.enqueue ∧ c'.tx.accepted = c.tx.accepted
  recv : t ≠ .recv → c'.recv = c.recv
  print : t ≠ .print → c'.print = c.print
  send : t ≠ .send → c'.tx.send = c.tx.send

theorem step_pc (h : c.step (t, x) = some c') : SamePc t c c' := by
  cases t <;> simp only [step, mainStep, recvStep, printStep] at h
  all_goals repeat' split at h
  all_goals simp only [Option.map_eq_some_iff, Option.some.injEq, reduceCtorEq] at h
  all_goals first
    | subst h
    | obtain ⟨tx, htx, rfl⟩ := h
  all_goals refine ⟨fun _ => ?_, fun _ => ?_, fun _ => ?_, fun _ => ?_⟩
  all_goals first
    | contradiction
    | rfl
    | exact ⟨rfl, rfl, rfl⟩
    | exact Tx.enqueueStep_send htx
    | exact ⟨rfl, Tx.sendStep_enqueue htx, (Tx.sendStep_underway htx).2⟩

/-- Only the main thread closes the socket, only `ReceiveMessages` receives and pushes messages, only these two take
bytes, and a thread other than `ReceiveMessages` and `PrintMessages` does no more to `m_rxQueue` than notify. -/
structure SameData (t : Thread) (c c' : Client) : Prop where
  stream : c'.stream = c.stream
  valid : t ≠ .main → c'.valid = c.valid
  messages : t ≠ .recv → c'.received = c.received ∧ c'.pushed = c.pushed
  unread : t ≠ .main → t ≠ .recv → c'.unread = c.unread
  rx : t ≠ .recv → t ≠ .print → c'.rxQueue = c.rxQueue ∧ (c'.rxCV = c.rxCV ∨ c'.rxCV = [])

theorem step_data (h : c.step (t, x) = some c') : SameData t c c' := by
  cases t <;> simp only [step, mainStep, recvStep, printStep] at h
  all_goals repeat' split at h
  all_goals simp only [Option.map_eq_some_iff, Option.some.injEq, reduceCtorEq] at h
  all_goals first
    | subst h
    | obtain ⟨tx, htx, rfl⟩ := h
  all_goals refine ⟨rfl, fun _ => ?_, fun _ => ?_, fun _ _ => ?_, fun _ _ => ?_⟩
  all_goals first
    | contradiction
    | rfl
    | exact ⟨rfl, rfl⟩
    | exact ⟨rfl, .inl rfl⟩
    | exact ⟨rfl, .inr rfl⟩

/-- `ReceiveMessages` and `PrintMessages` do no more to the transmit side than clear `m_isActive`. -/
theorem workerStep_tx (h : c.step (t, x) = some c') (ht : t ≠ .main) (hs : t ≠ .send) :
    c'.tx = { c.tx with active := c'.tx.active } := by
  cases t <;> simp only [step, recvStep, printStep] at h
  case recv | print =>
    repeat' split at h
    all_goals simp only [Option.some.injEq, reduceCtorEq] at h
    all_goals subst h
    all_goals rfl
  all_goals contradiction

/-- A step of the client is one move of its transmit queue, or none. -/
theorem step_tx (h : c.step (t, x) = some c') :
    c'.tx = c.tx ∨ ∃ i, c.tx.Small i ∧ c.tx.step i = some c'.tx := by
  cases t <;> simp only [step, mainStep, recvStep, printStep] at h
  all_goals repeat' split at h
  all_goals simp only [Option.map_eq_some_iff, Option.some.injEq, reduceCtorEq] at h
  all_goals first
    | subst h
    | obtain ⟨tx, htx, rfl⟩ := h
  all_goals first
    | exact .inl rfl
    | exact .inr ⟨.deactivate, trivial, rfl⟩
    | exact .inr ⟨.notifyNotEmpty, trivial, rfl⟩
    | exact .inr ⟨.notifyNotFull, trivial, rfl⟩
    | exact .inr ⟨.shutdown, trivial, rfl⟩
    | exact .inr ⟨.send _, trivial, htx⟩
    | exact .inr ⟨.enqueue .go, trivial, htx⟩
    | exact .inr ⟨.enqueue (.call _), Nat.le_of_not_lt ‹_›, htx⟩

theorem step_inactive (h : c.step (t, x) = some c') (ha : c.tx.active = false) : c'.tx.active = false := by
  rcases step_tx h with he | ⟨i, -, hst⟩
  · rw [he, ha]
  · exact Tx.step_inactive hst ha

theorem step_txMode (h : c.step (t, x) = some c') : c'.tx.txMode = c.tx.txMode := by
  rcases step_tx h with he | ⟨i, -, hst⟩
  · rw [he]
  · exact Tx.step_txMode hst

end Client

/-- **The transmit queue inside the client** is one of `FramingClient.TxQueue`. -/
theorem tx_reach {ok : Client → Thread × Input → Prop} {c : Client} (h : client.Reach ok c) :
    txQueue.Reach Tx.Small c.tx := by
  refine h.invariant (fun c => txQueue.Reach Tx.Small c.tx) ?_ ?_
  · rintro c ⟨txMode, rxMode, stream, rfl⟩
    exact .init ⟨txMode, rfl⟩
  · rintro c ⟨t, x⟩ c' - ih - hst
    rcases Client.step_tx hst with he | ⟨i, hi, hst⟩
    · exact he ▸ ih
    · exact .step ih hi hst

/-! ## The receiving mutex -/

/-- Positions between a `lock` of `m_rxMutex` and its `unlock`. -/
def RecvPc.HoldsRx : RecvPc → Prop
  | .body _ | .notify | .unlock | .overflowStore | .overflowUnlock => True
  | _ => False

def PrintPc.HoldsRx : PrintPc → Prop
  | .pred | .park | .test | .breakUnlock | .pop | .unlock _ => True
  | _ => False

namespace Client

/-- The thread is inside the critical section. -/
def HoldsRx (c : Client) : Thread → Prop
  | .recv => c.recv.HoldsRx
  | .print => c.print.HoldsRx
  | _ => False

variable {c c' : Client} {t : Thread} {x : Input}

theorem step_rx (h : c.step (t, x) = some c') :
    LockStep t c.rxMutex c'.rxMutex (c.HoldsRx t) (c'.HoldsRx t) := by
  cases t <;> simp only [step, mainStep, recvStep, printStep] at h
  all_goals repeat' split at h
  all_goals simp only [Option.map_eq_some_iff, Option.some.injEq, reduceCtorEq] at h
  all_goals first
    | subst h
    | obtain ⟨tx, htx, rfl⟩ := h
  all_goals simp [LockStep, HoldsRx, RecvPc.HoldsRx, PrintPc.HoldsRx, *]

end Client

theorem rx_owned {ok : Client → Thread × Input → Prop} {c : Client} (h : client.Reach ok c) :
    Owned c.rxMutex c.HoldsRx := by
  refine h.invariant (fun c => Owned c.rxMutex c.HoldsRx) ?_ ?_
  · rintro c ⟨txMode, rxMode, stream, rfl⟩
    refine .of_none fun t => ?_
    cases t <;> exact id
  · rintro c ⟨t, x⟩ c' - ih - hst
    have hpc := Client.step_pc hst
    refine ih.step (Client.step_rx hst) fun u hu => ?_
    cases u with
    | recv => simp only [Client.HoldsRx, hpc.recv (Ne.symm hu)]
    | print => simp only [Client.HoldsRx, hpc.print (Ne.symm hu)]
    | _ => exact Iff.rfl

end TcpChat.FramingClient
